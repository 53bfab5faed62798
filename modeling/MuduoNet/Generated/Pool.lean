import MuduoNet.Generated.Classes
import MuduoNet.Codec.Dispatcher
import MuduoNet.Codec.RoundTrip

/-!
# The messages of a program

The protobuf library finds the classes that are linked into a program by their names, makes messages
of them and parses bytes into these; it knows its own types besides. It is a parameter here, with what
it documents as laws. What the codec and the dispatchers rely on follows from these laws and from the
generated code.
-/
namespace MuduoNet.Generated

open Lib ProtobufCodec

def typeName (c : Class) : List UInt8 := c.name.toUTF8.toList

/-- The generated classes of a program; their names differ. -/
structure Linked where
  classes : List Class
  known : ∀ c ∈ classes, c ∈ Generated.classes
  distinct : (classes.map typeName).Nodup

theorem typeName_of_mem : ∀ c ∈ classes, typeName c ≠ [] ∧ (typeName c).length ≤ 32 := by
  unfold classes
  decide +kernel

theorem Linked.coherent (linked : Linked) (i : Fin linked.classes.length) :
    (linked.classes.get i).Coherent :=
  classes_coherent _ (linked.known _ (List.get_mem _ _))

theorem Linked.typeName_get (linked : Linked) (i : Fin linked.classes.length) :
    typeName (linked.classes.get i) ≠ [] ∧ (typeName (linked.classes.get i)).length ≤ 32 :=
  typeName_of_mem _ (linked.known _ (List.get_mem _ i))

/-- The library in such a program: `class_` is the C++ class, `object` a message of it, and `cast` the
`dynamic_cast` to it. There may be other classes and messages. -/
structure Pool (W : WireFormat) (linked : Linked) extends TypedProtobuf where
  class_ : Fin linked.classes.length → Class
  object : ∀ i, GeneratedMessage W (linked.classes.get i) → Message
  cast : ∀ i, Message → Option (GeneratedMessage W (linked.classes.get i))

namespace Pool

open GeneratedMessage (new)

variable {W : WireFormat} {linked : Linked}

structure Lawful (L : Pool W linked) : Prop where
  /-- The virtual functions are those of the generated class. -/
  name_object : ∀ i m, L.GetTypeName (L.object i m) = typeName (linked.classes.get i)
  initialized_object : ∀ i m, L.IsInitialized (L.object i m) = m.IsInitialized
  size_object : ∀ i m, L.ByteSizeLong (L.object i m) = m.ByteSizeLong
  written_object : ∀ i m, L.SerializeWithCachedSizesToArray (L.object i m) =
    m.InternalSerializeWithCachedSizesToArray
  descriptor_object : ∀ i m, L.GetDescriptor (L.object i m) = L.descriptor (L.class_ i)
  new_object : ∀ i m, L.New (L.object i m) = L.object i new
  /-- A cast to the class of a message succeeds. -/
  cast_object : ∀ i m, L.cast i (L.object i m) = some m
  casts : L.Casts
  /-- Each class is registered under its name, with a prototype. -/
  distinct : ∀ i j, L.descriptor (L.class_ i) = L.descriptor (L.class_ j) → i = j
  found : ∀ i, L.FindMessageTypeByName (typeName (linked.classes.get i)) = some (L.descriptor (L.class_ i))
  prototype : ∀ i, ∃ m, L.GetPrototype (L.descriptor (L.class_ i)) = some (L.object i m)
  registered : ∀ name d, L.FindMessageTypeByName name = some d → name.length + 10 ≤ 2 ^ 31
  /-- The message is cleared, `MergePartialFromCodedStream` has to succeed and to consume all the
  bytes, and the message has to be initialized. -/
  parse_object : ∀ i m₀ data x, L.ParseFromArray (L.object i m₀) data = (true, x) ↔
    ∃ m, (new : GeneratedMessage W _).MergePartialFromCodedStream data = some (m, []) ∧
      m.IsInitialized = true ∧ x = L.object i m
  /-- Of the other types. -/
  parse_other : ∀ m₀ data x, (∀ i m, m₀ ≠ L.object i m) → L.ParseFromArray m₀ data = (true, x) →
    L.IsInitialized x = true ∧ L.ByteSizeLong x = (L.SerializeWithCachedSizesToArray x).length

variable {L : Pool W linked}

/-- What is parsed is initialized, and its size is the number of bytes that are written. -/
theorem Lawful.parsed (hL : L.Lawful) (hW : W.Lawful) {m₀ x : L.Message} {data : List UInt8}
    (h : L.ParseFromArray m₀ data = (true, x)) :
    L.IsInitialized x = true ∧ L.ByteSizeLong x = (L.SerializeWithCachedSizesToArray x).length := by
  by_cases hobject : ∃ i m, m₀ = L.object i m
  · obtain ⟨i, m₁, rfl⟩ := hobject
    obtain ⟨m, hmerge, hinit, rfl⟩ := (hL.parse_object i m₁ data x).mp h
    have hwf := GeneratedMessage.new_wf.parsed hW (linked.coherent i) hmerge
    rw [hL.initialized_object, hL.size_object, hL.written_object]
    exact ⟨hinit, GeneratedMessage.byteSizeLong_eq hW (linked.coherent i) hwf⟩
  · refine hL.parse_other m₀ data x ?_ h
    intro i m heq
    exact hobject ⟨i, m, heq⟩

theorem Lawful.protobuf (hL : L.Lawful) (hW : W.Lawful) : L.toProtobuf.Lawful where
  byteSize _ _ _ h := (hL.parsed hW h).2
  registered := hL.registered
  initialized _ _ _ h := (hL.parsed hW h).1

/-- An initialized message is parsed back from its bytes. -/
theorem Lawful.parse_written (hL : L.Lawful) (hW : W.Lawful) {i : Fin linked.classes.length}
    {m : GeneratedMessage W (linked.classes.get i)} (hwf : m.Wf) (hinit : m.IsInitialized = true) :
    L.ParseFromArray (L.object i new) (L.SerializeWithCachedSizesToArray (L.object i m)) =
      (true, L.object i m) := by
  rw [hL.written_object]
  exact (hL.parse_object i new _ _).mpr
    ⟨m, GeneratedMessage.parse_serialize hW (linked.coherent i) hwf, hinit, rfl⟩

theorem Lawful.created (hL : L.Lawful) (i : Fin linked.classes.length) :
    createMessage L.toProtobuf (typeName (linked.classes.get i)) = some (L.object i new) := by
  obtain ⟨m, hprototype⟩ := hL.prototype i
  unfold createMessage
  rw [hL.found]
  show (L.GetPrototype (L.descriptor (L.class_ i))).bind (fun m => some (L.New m)) = _
  rw [hprototype, Option.bind_some, hL.new_object]

/-- An initialized message of less than 2 GiB is encoded and decoded to itself. -/
theorem Lawful.encodable (hL : L.Lawful) (hW : W.Lawful) {i : Fin linked.classes.length}
    {m : GeneratedMessage W (linked.classes.get i)} (hwf : m.Wf) (hinit : m.IsInitialized = true)
    (hlen : m.InternalSerializeWithCachedSizesToArray.length < 2 ^ 31) :
    Encodable L.toProtobuf (L.object i m) (L.object i new) where
  named := by
    rw [hL.name_object]
    exact (linked.typeName_get i).1
  created := by
    rw [hL.name_object]
    exact hL.created i
  payload := by
    rw [hL.written_object]
    exact hlen
  parses := hL.parse_written hW hwf hinit

theorem Lawful.length_body (hL : L.Lawful) (i : Fin linked.classes.length)
    (m : GeneratedMessage W (linked.classes.get i)) : (body L.toProtobuf (L.object i m)).length =
      9 + (typeName (linked.classes.get i)).length + m.InternalSerializeWithCachedSizesToArray.length := by
  rw [ProtobufCodec.length_body, hL.name_object, hL.written_object]

end Pool

namespace Linked

open GeneratedMessage (new)

variable (linked : Linked) (W : WireFormat)

structure Object where
  descriptor : Fin linked.classes.length
  fields : GeneratedMessage W (linked.classes.get descriptor)

variable {linked W} in
def Object.parse (m : Object linked W) (data : List UInt8) : Bool × Object linked W :=
  match (new : GeneratedMessage W (linked.classes.get m.descriptor)).MergePartialFromCodedStream data with
  | some (fields, rest) => (fields.IsInitialized && rest.isEmpty, ⟨m.descriptor, fields⟩)
  | none => (false, ⟨m.descriptor, new⟩)

variable {linked W} in
def Object.cast (i : Fin linked.classes.length) (m : Object linked W) :
    Option (GeneratedMessage W (linked.classes.get i)) :=
  if h : m.descriptor = i then
    let fields : GeneratedMessage W (linked.classes.get i) := h ▸ m.fields
    some fields
  else none

/-- A library that knows these classes only. -/
def pool : Pool W linked where
  Message := Object linked W
  Descriptor := Fin linked.classes.length
  GetTypeName m := typeName (linked.classes.get m.descriptor)
  IsInitialized m := m.fields.IsInitialized
  ByteSizeLong m := m.fields.ByteSizeLong
  SerializeWithCachedSizesToArray m := m.fields.InternalSerializeWithCachedSizesToArray
  FindMessageTypeByName name :=
    (List.finRange linked.classes.length).find? fun i => typeName (linked.classes.get i) = name
  GetPrototype i := some ⟨i, new⟩
  New m := ⟨m.descriptor, new⟩
  ParseFromArray := Object.parse
  Class := Fin linked.classes.length
  GetDescriptor m := m.descriptor
  descriptor i := i
  isInstance i m := m.descriptor = i
  class_ i := i
  object i m := ⟨i, m⟩
  cast := Object.cast

theorem Object.parse_eq {m x : Object linked W} {data : List UInt8} :
    m.parse data = (true, x) ↔
      ∃ fields, (new : GeneratedMessage W (linked.classes.get m.descriptor)).MergePartialFromCodedStream
        data = some (fields, []) ∧ fields.IsInitialized = true ∧ x = ⟨m.descriptor, fields⟩ := by
  unfold Object.parse
  constructor
  · intro h
    split at h
    · rename_i fields rest hmerge
      obtain ⟨hok, rfl⟩ := Prod.mk.inj h
      obtain ⟨hinit, hrest⟩ := Bool.and_eq_true_iff.mp hok
      rw [List.isEmpty_iff.mp hrest] at hmerge
      exact ⟨fields, hmerge, hinit, rfl⟩
    · cases (Prod.mk.inj h).1
  · rintro ⟨fields, hmerge, hinit, rfl⟩
    rw [hmerge]
    show (fields.IsInitialized && true, _) = _
    rw [hinit]
    rfl

theorem typeName_injective {i j : Fin linked.classes.length}
    (h : typeName (linked.classes.get i) = typeName (linked.classes.get j)) : i = j := by
  have hget : ∀ i : Fin linked.classes.length, typeName (linked.classes.get i) =
      (linked.classes.map typeName).get (i.cast (List.length_map typeName).symm) := by
    intro i
    simp
  rw [hget, hget] at h
  have hcast := List.nodup_iff_injective_get.mp linked.distinct h
  have hval := Fin.ext_iff.mp hcast
  exact Fin.ext hval

theorem pool_lawful : (linked.pool W).Lawful where
  name_object _ _ := rfl
  initialized_object _ _ := rfl
  size_object _ _ := rfl
  written_object _ _ := rfl
  descriptor_object _ _ := rfl
  new_object _ _ := rfl
  cast_object i m := dif_pos rfl
  casts i m h := @decide_eq_true _ (instDecidableEqFin _ _ _) h
  distinct _ _ h := h
  found i := by
    show (List.finRange linked.classes.length).find? (fun j =>
      typeName (linked.classes.get j) = typeName (linked.classes.get i)) = some i
    cases hfind : (List.finRange linked.classes.length).find? fun j =>
        typeName (linked.classes.get j) = typeName (linked.classes.get i) with
    | none =>
      have hno := List.find?_eq_none.mp hfind i (List.mem_finRange i)
      simp at hno
    | some j =>
      have hj := List.find?_some hfind
      rw [linked.typeName_injective (of_decide_eq_true hj)]
  prototype i := ⟨new, rfl⟩
  registered name i h := by
    have hfind : (List.finRange linked.classes.length).find? (fun j =>
        typeName (linked.classes.get j) = name) = some i := h
    have hname := List.find?_some hfind
    rw [decide_eq_true_eq] at hname
    have hshort := (linked.typeName_get i).2
    rw [← hname]
    omega
  parse_object i m₀ data x := Object.parse_eq linked W
  parse_other m₀ data x h := absurd rfl (h m₀.descriptor m₀.fields)

end Linked

end MuduoNet.Generated
