import MuduoNet.Generated.Merge

/-!
# Messages and their bytes

What every message keeps, from the constructor through parsing and merging: its bits are those of
its fields, a field that is not set has its first value, its values can be read back, and its
unknown fields stay unknown. The bytes of such a message, parsed into another one, do what
`MergeFrom` does, and they are as many as `ByteSizeLong` says.
-/
namespace MuduoNet.Generated

open Lib

namespace GeneratedMessage

variable {W : WireFormat} {c : Class}

/-- Written, the field is read as an unknown one again. -/
def Foreign (c : Class) (u : W.UnknownField) : Prop :=
  ∀ (m : GeneratedMessage W c) rest,
    m.round (W.WriteUnknown u ++ rest) = some (some (m.addUnknown u, rest))

structure Wf (m : GeneratedMessage W c) : Prop where
  bits : m._has_bits_ &&& c.mask (List.finRange _) = m._has_bits_
  unset : ∀ i, Contents.merge _ _ (.initial _ _ (c.fields.get i).initial) m._has_bits_ (m.contents i) =
    m.contents i
  stored : ∀ i, ∀ v ∈ m.values i, (c.fields.get i).type.rejected v = none ∧ (c.fields.get i).type.Fits v
  foreign : ∀ u ∈ m.unknown_fields, Foreign c u

/-- What stands one behind the other in the bytes of a message. -/
inductive Item (W : WireFormat) (c : Class)
  | value (i : Fin c.fields.length) (v : (c.fields.get i).type.Value)
  | unknown (u : W.UnknownField)

namespace Item

def write : Item W c → List UInt8
  | .value i v => W.WriteTag (makeTag (c.fields.get i)) ++ W.Write _ v
  | .unknown u => W.WriteUnknown u

def apply (m : GeneratedMessage W c) : Item W c → GeneratedMessage W c
  | .value i v => m.store i v
  | .unknown u => m.addUnknown u

/-- The item is read back. -/
def Readable : Item W c → Prop
  | .value i v => (c.fields.get i).type.rejected v = none ∧ (c.fields.get i).type.Fits v
  | .unknown u => Foreign c u

end Item

variable {m from_ : GeneratedMessage W c}

def items (m : GeneratedMessage W c) : List (Item W c) :=
  ((List.finRange c.fields.length).flatMap fun i => (m.values i).map (Item.value i)) ++
    m.unknown_fields.map Item.unknown

theorem serialize_eq (m : GeneratedMessage W c) :
    m.InternalSerializeWithCachedSizesToArray = m.items.flatMap Item.write := by
  unfold InternalSerializeWithCachedSizesToArray items
  rw [List.flatMap_append, List.flatMap_assoc, List.flatMap_map]
  congr 2
  funext i
  rw [List.flatMap_map]
  rfl

theorem Wf.readable (h : m.Wf) : ∀ item ∈ m.items, item.Readable := by
  intro item hitem
  rcases List.mem_append.mp hitem with hitem | hitem
  · obtain ⟨i, _, hitem⟩ := List.mem_flatMap.mp hitem
    obtain ⟨v, hv, rfl⟩ := List.mem_map.mp hitem
    exact h.stored i v hv
  · obtain ⟨u, hu, rfl⟩ := List.mem_map.mp hitem
    exact h.foreign u hu

/-- One round reads one item. -/
theorem round_item (hW : W.Lawful) (hc : c.Coherent) {item : Item W c} (h : item.Readable)
    (m : GeneratedMessage W c) (rest : List UInt8) :
    m.round (item.write ++ rest) = some (some (item.apply m, rest)) := by
  cases item with
  | unknown u => exact h m rest
  | value i v =>
    obtain ⟨hrejected, hfits⟩ := h
    obtain ⟨hpos, hle⟩ := hc.makeTag_le i
    unfold round Item.write
    rw [List.append_assoc, hW.readTag_writeTag hpos hle]
    dsimp only
    rw [if_pos rfl, hc.case_makeTag i]
    dsimp only
    unfold readField
    rw [hW.read_write hfits]
    simp only [Option.bind_eq_bind, Option.bind_some]
    rw [hrejected]
    rfl

theorem round_end (hW : W.Lawful) (hc : c.Coherent) (m : GeneratedMessage W c) :
    m.round [] = some none := by
  unfold round
  have hend := hW.tag_end
  generalize W.ReadTag [] = r at hend ⊢
  obtain ⟨⟨tag, known⟩, rest⟩ := r
  obtain rfl : tag = 0 := hend
  dsimp only
  rw [Class.case_zero hc, ite_self]
  rfl

/-- No item is written as nothing. -/
theorem Item.length_write (hW : W.Lawful) (hc : c.Coherent) {item : Item W c} (h : item.Readable) :
    0 < item.write.length := by
  rw [List.length_pos_iff]
  intro hnil
  have hround := round_item hW hc h .new []
  rw [hnil, List.append_nil, round_end hW hc] at hround
  cases hround

theorem length_items_le (hW : W.Lawful) (hc : c.Coherent) {items : List (Item W c)}
    (h : ∀ item ∈ items, item.Readable) : items.length ≤ (items.flatMap Item.write).length := by
  induction items with
  | nil => exact Nat.le_refl 0
  | cons item items ih =>
    have hrest := ih fun i hi => h i (List.mem_cons_of_mem _ hi)
    have hpos := Item.length_write hW hc (h item List.mem_cons_self)
    rw [List.flatMap_cons, List.length_cons, List.length_append]
    omega

/-- Merging one field of another message. -/
def mergeField (from_ m : GeneratedMessage W c) (i : Fin c.fields.length) : GeneratedMessage W c :=
  { m with
    _has_bits_ := m._has_bits_ ||| (from_._has_bits_ &&& (c.fields.get i).label.mask)
    contents := Function.update m.contents i
      (.merge _ _ (m.contents i) from_._has_bits_ (from_.contents i)) }

theorem foldl_store (i : Fin c.fields.length) (values : List (c.fields.get i).type.Value)
    (m : GeneratedMessage W c) : (values.map (Item.value i)).foldl Item.apply m =
      { m with
        _has_bits_ := values.foldl (fun b _ => b ||| (c.fields.get i).label.mask) m._has_bits_
        contents := Function.update m.contents i (values.foldl (.add _ _) (m.contents i)) } := by
  induction values generalizing m with
  | nil => simp
  | cons v values ih =>
    rw [List.map_cons, List.foldl_cons, ih]
    simp [Item.apply, store]

theorem foldl_values (from_ m : GeneratedMessage W c) (i : Fin c.fields.length) :
    ((from_.values i).map (Item.value i)).foldl Item.apply m = mergeField from_ m i := by
  unfold mergeField
  rw [foldl_store, ← Contents.foldl_mask (from_.contents i), ← Contents.foldl_add]
  rfl

theorem foldl_mergeField (from_ m : GeneratedMessage W c) {is_ : List (Fin c.fields.length)}
    (hnodup : is_.Nodup) : is_.foldl (mergeField from_) m =
      { m with
        _has_bits_ := m._has_bits_ ||| (from_._has_bits_ &&& c.mask is_)
        contents := fun i => if i ∈ is_ then
          .merge _ _ (m.contents i) from_._has_bits_ (from_.contents i) else m.contents i } := by
  induction is_ generalizing m with
  | nil => simp [Class.mask]
  | cons i is_ ih =>
    obtain ⟨hi, hnodup⟩ := List.nodup_cons.mp hnodup
    rw [List.foldl_cons, ih _ hnodup]
    unfold mergeField
    dsimp only
    congr 1
    · rw [BitVec.or_assoc, ← BitVec.and_or_distrib_left]
      rfl
    · funext j
      by_cases hj : j = i
      · subst hj
        simp [hi]
      · simp [hj]

theorem foldl_unknown (us : List W.UnknownField) (m : GeneratedMessage W c) :
    (us.map Item.unknown).foldl Item.apply m = { m with unknown_fields := m.unknown_fields ++ us } := by
  induction us generalizing m with
  | nil => simp
  | cons u us ih =>
    rw [List.map_cons, List.foldl_cons, ih]
    simp [Item.apply, addUnknown]

/-- The items of a message, one after the other, are merged as `MergeFrom` merges the message. -/
theorem foldl_items (h : from_.Wf) (m : GeneratedMessage W c) :
    from_.items.foldl Item.apply m = m.MergeFrom from_ := by
  have hfields : ∀ (is_ : List (Fin c.fields.length)) (m : GeneratedMessage W c),
      (is_.flatMap fun i => (from_.values i).map (Item.value i)).foldl Item.apply m =
        is_.foldl (mergeField from_) m := by
    intro is_
    induction is_ with
    | nil => intro m; rfl
    | cons i is_ ih =>
      intro m
      rw [List.flatMap_cons, List.foldl_append, foldl_values, ih, List.foldl_cons]
  unfold items MergeFrom
  rw [List.foldl_append, hfields, foldl_mergeField _ _ (List.nodup_finRange _), foldl_unknown, h.bits]
  simp

/-- The bytes of a message, parsed into another one, do what `MergeFrom` does. -/
theorem merge_serialize (hW : W.Lawful) (hc : c.Coherent) (h : from_.Wf) (m : GeneratedMessage W c) :
    m.MergePartialFromCodedStream from_.InternalSerializeWithCachedSizesToArray =
      some (m.MergeFrom from_, []) := by
  have hle := length_items_le hW hc h.readable
  have hread := readItems_written
    (fun item hitem (m : GeneratedMessage W c) rest => round_item hW hc (h.readable item hitem) m rest)
    ((from_.items.flatMap Item.write).length - from_.items.length + 1) m []
  unfold MergePartialFromCodedStream
  rw [serialize_eq]
  rw [List.append_nil, ← Nat.add_assoc, Nat.add_sub_cancel' hle] at hread
  rw [hread, readItems_stop (round_end hW hc _), foldl_items h]

theorem new_mergeFrom (h : m.Wf) : new.MergeFrom m = m := by
  unfold MergeFrom new
  simp only [List.nil_append]
  have hcontents : (fun i => Contents.merge _ _ (.initial _ _ (c.fields.get i).initial) m._has_bits_
      (m.contents i)) = m.contents := funext h.unset
  show GeneratedMessage.mk _ _ _ = _
  rw [hcontents]
  simp

/-- A message parsed from its own bytes is itself. -/
theorem parse_serialize (hW : W.Lawful) (hc : c.Coherent) (h : m.Wf) :
    new.MergePartialFromCodedStream m.InternalSerializeWithCachedSizesToArray = some (m, []) := by
  rw [merge_serialize hW hc h, new_mergeFrom h]

theorem valueSize_eq (hW : W.Lawful) {t : FieldType} {v : t.Value}
    (h : W.Size t v = (W.Write t v).length) : valueSize W t v = (W.Write t v).length := by
  cases t with
  | fixed64 => exact (hW.fixed64_size v).symm
  | bool => exact (hW.bool_size v).symm
  | int32 | int64 | string | bytes | enumeration valid => exact h

theorem length_field (hW : W.Lawful) (hc : c.Coherent) (h : m.Wf) (i : Fin c.fields.length) :
    ((m.values i).flatMap fun v => W.WriteTag (makeTag (c.fields.get i)) ++ W.Write _ v).length =
      m.fieldSize m._has_bits_ i := by
  obtain ⟨hpos, hle⟩ := hc.makeTag_le i
  rw [List.length_flatMap]
  apply congrArg List.sum
  apply List.map_congr_left
  intro v hv
  have hsize := hW.size _ v (h.stored i v hv).2
  rw [List.length_append, hW.tag_size _ hpos hle, valueSize_eq hW hsize]

/-- The bits of the required fields are those of the mask. -/
theorem required_bit (hc : c.Coherent) {i : Fin c.fields.length} (h : isRequired c i = true) :
    ∃ bit, (c.fields.get i).label = .required bit ∧ bit < 32 ∧ c.required.getLsbD bit = true := by
  have hlt := hc.bit i
  have hmask := hc.required
  unfold isRequired at h
  split at h
  · rename_i bit hlabel
    rw [hlabel] at hlt
    have hbit : bit < 32 := hlt bit rfl
    refine ⟨bit, hlabel, hbit, (hmask ⟨bit, hbit⟩).mpr ⟨i, ?_, by rw [hlabel]; rfl⟩⟩
    unfold isRequired
    rw [hlabel]
  · cases h
  · cases h

theorem values_required {l : Label} {t : FieldType} {has : BitVec 32} {x : Contents l t} {bit : Nat}
    (hl : l = .required bit) (hlt : bit < 32) (hbit : has.getLsbD bit = true) :
    Contents.values l t has x = Contents.values l t (BitVec.allOnes 32) x ∧
      Contents.values l t has x ≠ [] := by
  subst hl
  have hset := (Contents.and_twoPow_ne_zero hlt).mpr hbit
  have hall : BitVec.allOnes 32 &&& BitVec.twoPow 32 bit ≠ 0 := by
    rw [Contents.and_twoPow_ne_zero hlt, BitVec.getLsbD_allOnes]
    exact decide_eq_true hlt
  dsimp only [Contents.values]
  rw [if_pos hset, if_pos hall]
  exact ⟨rfl, List.cons_ne_nil _ _⟩

/-- Whether all bits of the mask are set is whether all required fields are. -/
theorem and_required (hc : c.Coherent) (m : GeneratedMessage W c) :
    m._has_bits_ &&& c.required = c.required ↔
      ∀ i, isRequired c i = true → m.values i ≠ [] := by
  constructor
  · intro hand i hi
    obtain ⟨bit, hlabel, hlt, hmask⟩ := required_bit hc hi
    have hset : m._has_bits_.getLsbD bit = true := by
      have hboth := congrArg (BitVec.getLsbD · bit) hand
      simp only [BitVec.getLsbD_and, hmask, Bool.and_true] at hboth
      exact hboth
    exact (values_required hlabel hlt hset).2
  · intro hall
    apply BitVec.eq_of_getLsbD_eq
    intro bit hlt
    rw [BitVec.getLsbD_and]
    cases hmask : c.required.getLsbD bit with
    | false => rw [Bool.and_false]
    | true =>
      obtain ⟨i, hi, hbit⟩ := (hc.required ⟨bit, hlt⟩).mp hmask
      have hne := hall i hi
      have hset : ∀ {l : Label} {t : FieldType} {x : Contents l t}, l.bit = some bit →
          Contents.values l t m._has_bits_ x ≠ [] → m._has_bits_.getLsbD bit = true := by
        intro l t x hl hx
        cases l with
        | repeated => cases hl
        | required b | optional b =>
          obtain rfl := Option.some.inj hl
          dsimp only [Contents.values] at hx
          split at hx
          · rename_i hand
            exact (Contents.and_twoPow_ne_zero hlt).mp hand
          · exact absurd rfl hx
      rw [hset hbit hne]
      rfl

theorem isInitialized_iff (hc : c.Coherent) (m : GeneratedMessage W c) :
    m.IsInitialized = true ↔ ∀ i, isRequired c i = true → m.values i ≠ [] := by
  rw [← and_required hc]
  exact decide_eq_true_iff

theorem byteSizeLong_eq (hW : W.Lawful) (hc : c.Coherent) (h : m.Wf) :
    m.ByteSizeLong = m.InternalSerializeWithCachedSizesToArray.length := by
  have hrequired : (if (m._has_bits_ &&& c.required) ^^^ c.required = 0 then
      (((List.finRange c.fields.length).filter (isRequired c)).map
        (m.fieldSize (BitVec.allOnes 32))).sum
    else m.RequiredFieldsByteSizeFallback) =
      (((List.finRange c.fields.length).filter (isRequired c)).map (m.fieldSize m._has_bits_)).sum := by
    split
    · rename_i hxor
      have hand : m._has_bits_ &&& c.required = c.required := by
        rw [← BitVec.xor_right_inj c.required, BitVec.xor_self, BitVec.xor_comm]
        exact hxor
      apply congrArg List.sum
      apply List.map_congr_left
      intro i hi
      obtain ⟨bit, hlabel, hlt, hmask⟩ := required_bit hc (List.mem_filter.mp hi).2
      have hset : m._has_bits_.getLsbD bit = true := by
        have hboth := congrArg (BitVec.getLsbD · bit) hand
        simp only [BitVec.getLsbD_and, hmask, Bool.and_true] at hboth
        exact hboth
      unfold fieldSize
      rw [(values_required hlabel hlt hset).1]
    · rfl
  have hparts : (((List.finRange c.fields.length).filter (isRequired c)).map
        (m.fieldSize m._has_bits_)).sum +
      (((List.finRange c.fields.length).filter fun i => !isRequired c i).map
        (m.fieldSize m._has_bits_)).sum =
      ((List.finRange c.fields.length).map (m.fieldSize m._has_bits_)).sum := by
    rw [← List.sum_append, ← List.map_append]
    exact ((List.filter_append_perm (isRequired c) (List.finRange c.fields.length)).map _).sum_nat
  have hunknown : m.unknown_fields.map W.UnknownSize =
      m.unknown_fields.map fun u => (W.WriteUnknown u).length :=
    List.map_congr_left fun u _ => hW.unknown_size u
  have hfields : (List.finRange c.fields.length).map (m.fieldSize m._has_bits_) =
      (List.finRange c.fields.length).map fun i => ((m.values i).flatMap fun v =>
        W.WriteTag (makeTag (c.fields.get i)) ++ W.Write _ v).length :=
    List.map_congr_left fun i _ => (length_field hW hc h i).symm
  unfold ByteSizeLong InternalSerializeWithCachedSizesToArray
  rw [hrequired, Nat.add_assoc, hparts, hunknown, hfields, List.length_append, List.length_flatMap,
    List.length_flatMap, Nat.add_comm]

theorem new_wf : (new : GeneratedMessage W c).Wf where
  bits := by simp [new]
  unset i := Contents.merge_initial _ _
  stored i v hv := by
    rw [show (new : GeneratedMessage W c).values i = [] from Contents.values_initial _] at hv
    cases hv
  foreign u hu := by cases hu

theorem Wf.addUnknown (h : m.Wf) {u : W.UnknownField} (hu : Foreign c u) : (m.addUnknown u).Wf where
  bits := h.bits
  unset := h.unset
  stored := h.stored
  foreign w hw := by
    rcases List.mem_append.mp hw with hw | hw
    · exact h.foreign w hw
    · obtain rfl := List.mem_singleton.mp hw
      exact hu

theorem mask_and_mask (i : Fin c.fields.length) :
    (c.fields.get i).label.mask &&& c.mask (List.finRange _) = (c.fields.get i).label.mask := by
  have hmem : ∀ is_ : List (Fin c.fields.length), i ∈ is_ →
      (c.fields.get i).label.mask &&& c.mask is_ = (c.fields.get i).label.mask := by
    intro is_ hi
    induction is_ with
    | nil => cases hi
    | cons j is_ ih =>
      show _ &&& (_ ||| c.mask is_) = _
      rw [BitVec.and_or_distrib_left]
      rcases List.mem_cons.mp hi with rfl | hi
      · rw [BitVec.and_self]
        ext k
        simp
        tauto
      · rw [ih hi]
        ext k
        simp
        tauto
  exact hmem _ (List.mem_finRange i)

/-- Two fields have different bits. -/
theorem mask_and (hc : c.Coherent) {i j : Fin c.fields.length} (hij : i ≠ j) :
    (c.fields.get i).label.mask &&& (c.fields.get j).label.mask = 0 := by
  have hdistinct := fun bit => hc.bits i j bit
  have hapart : ∀ l l' : Label, (∀ bit ∈ l.bit, bit ∈ l'.bit → i = j) → l.mask &&& l'.mask = 0 := by
    intro l l' h
    cases hl : l.bit with
    | none =>
      have hzero : l.mask = 0 := by
        cases l with
        | repeated => rfl
        | required bit | optional bit => cases hl
      rw [hzero]
      exact BitVec.zero_and
    | some bit =>
      have htwo : l.mask = .twoPow 32 bit := by
        cases l with
        | repeated => cases hl
        | required b | optional b =>
          obtain rfl := Option.some.inj hl
          rfl
      have hother : l'.mask.getLsbD bit = true → False := by
        intro hbit
        apply hij
        apply h bit hl
        cases l' with
        | repeated => simp [Label.mask] at hbit
        | required b | optional b =>
          simp only [Label.mask, BitVec.getLsbD_twoPow, Bool.and_eq_true, decide_eq_true_eq] at hbit
          exact congrArg some hbit.2
      rw [htwo, BitVec.and_comm, BitVec.and_twoPow, if_neg hother]
      rfl
  exact hapart _ _ hdistinct

theorem values_new (i : Fin c.fields.length) : (new : GeneratedMessage W c).values i = [] :=
  Contents.values_initial _

theorem values_store (hc : c.Coherent) {i : Fin c.fields.length}
    (hi : (c.fields.get i).label.bit ≠ none) (m : GeneratedMessage W c)
    (v : (c.fields.get i).type.Value) : (m.store i v).values i = [v] := by
  obtain ⟨bit, hbit⟩ := Option.ne_none_iff_exists'.mp hi
  unfold values
  simp only [GeneratedMessage.store, Function.update_self]
  exact Contents.values_add hbit (hc.bit i bit hbit) _ v

theorem values_store_of_ne (hc : c.Coherent) {i j : Fin c.fields.length} (hj : j ≠ i)
    (m : GeneratedMessage W c) (v : (c.fields.get i).type.Value) :
    (m.store i v).values j = m.values j := by
  unfold values
  simp only [GeneratedMessage.store, Function.update_of_ne hj]
  exact Contents.values_or (mask_and hc (Ne.symm hj)) _

theorem Wf.store (hc : c.Coherent) (h : m.Wf) {i : Fin c.fields.length}
    {v : (c.fields.get i).type.Value} (hv : (c.fields.get i).type.rejected v = none)
    (hfits : (c.fields.get i).type.Fits v) : (m.store i v).Wf where
  bits := by
    show (m._has_bits_ ||| (c.fields.get i).label.mask) &&& _ = _ ||| _
    rw [BitVec.and_comm, BitVec.and_or_distrib_left, BitVec.and_comm, h.bits, BitVec.and_comm,
      mask_and_mask]
  unset j := by
    by_cases hj : j = i
    · subst hj
      simp only [GeneratedMessage.store, Function.update_self]
      exact (Contents.merge_or_mask v (hc.bit j)).trans (congrArg (Contents.add _ _ · v) (h.unset j))
    · simp only [GeneratedMessage.store, Function.update_of_ne hj]
      exact Contents.merge_or (h.unset j) _
  stored j w hw := by
    by_cases hj : j = i
    · subst hj
      simp only [values, GeneratedMessage.store, Function.update_self] at hw
      rcases Contents.mem_values_add _ _ hw with rfl | hw
      · exact ⟨hv, hfits⟩
      · exact h.stored j w hw
    · rw [values_store_of_ne hc hj] at hw
      exact h.stored j w hw
  foreign := h.foreign

theorem sum_map_le {n : Nat} {is_ : List (Fin n)} (hnodup : is_.Nodup) {f g : Fin n → Nat} {i : Fin n}
    {k : Nat} (hother : ∀ j, j ≠ i → f j = g j) (hi : f i ≤ g i + k) :
    (is_.map f).sum ≤ (is_.map g).sum + k := by
  induction is_ with
  | nil => exact Nat.zero_le _
  | cons j is_ ih =>
    obtain ⟨hj, hnodup⟩ := List.nodup_cons.mp hnodup
    rw [List.map_cons, List.map_cons, List.sum_cons, List.sum_cons]
    by_cases hij : j = i
    · subst hij
      have hrest : is_.map f = is_.map g := by
        apply List.map_congr_left
        intro k hk
        exact hother k fun hkj => hj (hkj ▸ hk)
      rw [hrest]
      omega
    · have hrest := ih hnodup
      rw [hother j hij]
      omega

/-- What a setter adds to the bytes: a tag, and the value with its length. -/
theorem length_store (hW : W.Lawful) (hc : c.Coherent) (m : GeneratedMessage W c)
    (i : Fin c.fields.length) {v : (c.fields.get i).type.Value} (hfits : (c.fields.get i).type.Fits v) :
    (m.store i v).InternalSerializeWithCachedSizesToArray.length ≤
      m.InternalSerializeWithCachedSizesToArray.length + (11 + (c.fields.get i).type.width v) := by
  obtain ⟨hpos, hle⟩ := hc.makeTag_le i
  have hvalue : (W.WriteTag (makeTag (c.fields.get i)) ++ W.Write _ v).length ≤
      11 + (c.fields.get i).type.width v := by
    have hshort := hW.write_short _ v hfits
    rw [List.length_append, hW.tag_size _ hpos hle]
    omega
  have hlength : ∀ m : GeneratedMessage W c, m.InternalSerializeWithCachedSizesToArray.length =
      ((List.finRange c.fields.length).map fun j => ((m.values j).flatMap fun value =>
        W.WriteTag (makeTag (c.fields.get j)) ++ W.Write _ value).length).sum +
      (m.unknown_fields.flatMap W.WriteUnknown).length := by
    intro m
    unfold InternalSerializeWithCachedSizesToArray
    rw [List.length_append, List.length_flatMap]
  rw [hlength, hlength]
  have hfields := sum_map_le (List.nodup_finRange c.fields.length) (i := i)
    (f := fun j => (((m.store i v).values j).flatMap fun value =>
      W.WriteTag (makeTag (c.fields.get j)) ++ W.Write _ value).length)
    (g := fun j => ((m.values j).flatMap fun value =>
      W.WriteTag (makeTag (c.fields.get j)) ++ W.Write _ value).length)
    (k := 11 + (c.fields.get i).type.width v) ?_ ?_
  · show _ + (m.unknown_fields.flatMap W.WriteUnknown).length ≤ _
    omega
  · intro j hj
    dsimp only [values, store]
    rw [Function.update_of_ne hj, Contents.values_or (mask_and hc (Ne.symm hj))]
  · dsimp only [values, store]
    rw [Function.update_self, List.length_flatMap, List.length_flatMap]
    exact Nat.le_trans (Contents.sum_values_add _ v _) (Nat.add_le_add_left hvalue _)

theorem length_store_le (hW : W.Lawful) (hc : c.Coherent) {m : GeneratedMessage W c}
    {i : Fin c.fields.length} {v : (c.fields.get i).type.Value} {n k : Nat}
    (h : m.InternalSerializeWithCachedSizesToArray.length ≤ n) (hfits : (c.fields.get i).type.Fits v)
    (hwidth : (c.fields.get i).type.width v ≤ k) :
    (m.store i v).InternalSerializeWithCachedSizesToArray.length ≤ n + (11 + k) := by
  have hstore := length_store hW hc m i hfits
  omega

theorem serialize_new : (new : GeneratedMessage W c).InternalSerializeWithCachedSizesToArray = [] := by
  unfold InternalSerializeWithCachedSizesToArray
  rw [show (new : GeneratedMessage W c).unknown_fields = [] from rfl, List.flatMap_nil,
    List.append_nil, List.flatMap_eq_nil_iff]
  intro i _
  rw [show (new : GeneratedMessage W c).values i = [] from Contents.values_initial _,
    List.flatMap_nil]

/-- A new message whose setters have been called, in the order of the fields. -/
def setAll (f : ∀ i : Fin c.fields.length, Option (c.fields.get i).type.Value) :
    GeneratedMessage W c :=
  (List.finRange c.fields.length).foldl (fun m i => (f i).elim m (m.store i)) new

variable {f : ∀ i : Fin c.fields.length, Option (c.fields.get i).type.Value}

theorem values_foldl_store (hc : c.Coherent) {is_ : List (Fin c.fields.length)}
    {i : Fin c.fields.length} (hi : i ∉ is_) (m : GeneratedMessage W c) :
    (is_.foldl (fun m j => (f j).elim m (m.store j)) m).values i = m.values i := by
  induction is_ generalizing m with
  | nil => rfl
  | cons j is_ ih =>
    obtain ⟨hne, hi⟩ := List.ne_and_not_mem_of_not_mem_cons hi
    rw [List.foldl_cons, ih hi]
    cases f j with
    | none => rfl
    | some v => exact values_store_of_ne hc hne m v

theorem values_setAll (hc : c.Coherent) {i : Fin c.fields.length}
    (hi : (c.fields.get i).label.bit ≠ none) :
    (setAll f : GeneratedMessage W c).values i = (f i).toList := by
  obtain ⟨pre, post, hsplit⟩ := List.append_of_mem (List.mem_finRange i)
  have hnodup := List.nodup_finRange c.fields.length
  rw [hsplit, List.nodup_append, List.nodup_cons] at hnodup
  obtain ⟨_, ⟨hpost, _⟩, hpre⟩ := hnodup
  unfold setAll
  rw [hsplit, List.foldl_append, List.foldl_cons, values_foldl_store hc hpost]
  cases hf : f i with
  | none =>
    show GeneratedMessage.values _ i = []
    rw [Option.elim_none, values_foldl_store hc fun h => hpre i h i List.mem_cons_self rfl, values_new]
  | some v => exact values_store hc hi _ v

theorem setAll_wf (hc : c.Coherent) (hf : ∀ i, ∀ v ∈ f i,
    (c.fields.get i).type.rejected v = none ∧ (c.fields.get i).type.Fits v) :
    (setAll f : GeneratedMessage W c).Wf := by
  unfold setAll
  refine List.foldlRecOn (motive := fun m => GeneratedMessage.Wf m) _ _ new_wf ?_
  intro m hm i _
  cases hi : f i with
  | none => exact hm
  | some v =>
    obtain ⟨hv, hfits⟩ := hf i v hi
    exact hm.store hc hv hfits

theorem length_setAll_le (hW : W.Lawful) (hc : c.Coherent)
    (hf : ∀ i, ∀ v ∈ f i, (c.fields.get i).type.Fits v) :
    (setAll f : GeneratedMessage W c).InternalSerializeWithCachedSizesToArray.length ≤
      ((List.finRange c.fields.length).map fun i =>
        (f i).elim 0 fun v => 11 + (c.fields.get i).type.width v).sum := by
  have hloop : ∀ (is_ : List (Fin c.fields.length)) (m : GeneratedMessage W c),
      (is_.foldl (fun m i => (f i).elim m (m.store i)) m).InternalSerializeWithCachedSizesToArray.length ≤
        m.InternalSerializeWithCachedSizesToArray.length +
          (is_.map fun i => (f i).elim 0 fun v => 11 + (c.fields.get i).type.width v).sum := by
    intro is_
    induction is_ with
    | nil => exact fun m => Nat.le_refl _
    | cons i is_ ih =>
      intro m
      rw [List.foldl_cons, List.map_cons, List.sum_cons]
      refine Nat.le_trans (ih _) ?_
      rw [← Nat.add_assoc]
      apply Nat.add_le_add_right
      cases hi : f i with
      | none => exact Nat.le_refl _
      | some v => exact length_store_le hW hc (Nat.le_refl _) (hf i v hi) (Nat.le_refl _)
  refine Nat.le_trans (hloop _ new) ?_
  rw [serialize_new, List.length_nil, Nat.zero_add]

/-- A value that is written is a part of the bytes. -/
theorem length_write_le {i : Fin c.fields.length} {v : (c.fields.get i).type.Value}
    (hv : v ∈ m.values i) :
    (W.Write _ v).length ≤ m.InternalSerializeWithCachedSizesToArray.length := by
  have hitem : Item.value i v ∈ m.items :=
    List.mem_append_left _ (List.mem_flatMap.mpr ⟨i, List.mem_finRange i, List.mem_map_of_mem hv⟩)
  obtain ⟨pre, post, hsplit⟩ := List.append_of_mem hitem
  rw [serialize_eq, hsplit, List.flatMap_append, List.flatMap_cons, List.length_append,
    List.length_append]
  show _ ≤ _ + ((W.WriteTag _ ++ W.Write _ v).length + _)
  rw [List.length_append]
  omega

end GeneratedMessage

end MuduoNet.Generated
