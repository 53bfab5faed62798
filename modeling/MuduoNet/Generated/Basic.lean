import MuduoNet.Lib.Records
import Mathlib.Algebra.Ring.Nat
import Mathlib.Logic.Function.Basic

/-!
# The classes that `protoc` generates

All the classes in the `.pb.cc` files have the same functions, each for its own fields: the switch
over the tags in `MergePartialFromCodedStream`, the writes of
`InternalSerializeWithCachedSizesToArray`, the sums of `ByteSizeLong` and the merges of `MergeFrom`.
Here they are written once, for a table of fields. What they call in the protobuf library
(`CodedInputStream`, `WireFormatLite`, `UnknownFieldSet`) is a parameter. The UTF-8 checks, which
only log, and what a failed parse leaves in the message are left out.
-/
namespace MuduoNet.Generated

open Lib

/-- The types of the fields; for an enumeration, the numbers for which `_IsValid` holds. -/
inductive FieldType
  | int32
  | int64
  | fixed64
  | bool
  | string
  | bytes
  | enumeration (valid : List Int32)

namespace FieldType

abbrev Value : FieldType → Type
  | .int32 | .enumeration _ => Int32
  | .int64 => Int64
  | .fixed64 => UInt64
  | .bool => Bool
  | .string | .bytes => List UInt8

/-- `WireFormatLite::WireTypeForFieldType` -/
def wireType : FieldType → Nat
  | .int32 | .int64 | .bool | .enumeration _ => 0
  | .fixed64 => 1
  | .string | .bytes => 2

/-- The value, extended to an `uint64`, if it is no value of its enumeration. -/
def rejected : (t : FieldType) → t.Value → Option UInt64
  | .enumeration valid, value => if value ∈ valid then none else some value.toInt64.toUInt64
  | .int32, _ | .int64, _ | .fixed64, _ | .bool, _ | .string, _ | .bytes, _ => none

/-- The lengths of strings are `int`s. -/
def Fits : (t : FieldType) → t.Value → Prop
  | .string, value | .bytes, value => value.length < 2 ^ 31
  | .int32, _ | .int64, _ | .fixed64, _ | .bool, _ | .enumeration _, _ => True

/-- The bytes of a string; for the other types there is a bound. -/
def width : (t : FieldType) → t.Value → Nat
  | .string, value | .bytes, value => value.length
  | .int32, _ | .int64, _ | .fixed64, _ | .bool, _ | .enumeration _, _ => 0

end FieldType

/-- A field that is not repeated has a bit in `_has_bits_`. -/
inductive Label
  | required (bit : Nat)
  | optional (bit : Nat)
  | repeated

def Label.mask : Label → BitVec 32
  | .required bit | .optional bit => .twoPow 32 bit
  | .repeated => 0

/-- The member of a field. -/
abbrev Contents : Label → FieldType → Type
  | .repeated, t => List t.Value
  | .required _, t | .optional _, t => t.Value

namespace Contents

/-- A setter, or `add_` for a repeated field. -/
def add : (l : Label) → (t : FieldType) → Contents l t → t.Value → Contents l t
  | .repeated, _, values, value => values ++ [value]
  | .required _, _, _, value | .optional _, _, _, value => value

/-- The values that are written. -/
def values : (l : Label) → (t : FieldType) → BitVec 32 → Contents l t → List t.Value
  | .repeated, _, _, values => values
  | .required bit, _, has, value | .optional bit, _, has, value =>
    if has &&& .twoPow 32 bit ≠ 0 then [value] else []

def initial : (l : Label) → (t : FieldType) → t.Value → Contents l t
  | .repeated, _, _ => []
  | .required _, _, value | .optional _, _, value => value

/-- What `MergeFrom` makes of a member and of that of the other message. -/
def merge : (l : Label) → (t : FieldType) → Contents l t → BitVec 32 → Contents l t → Contents l t
  | .repeated, _, values, _, from_ => values ++ from_
  | .required bit, _, value, has, from_ | .optional bit, _, value, has, from_ =>
    if has &&& .twoPow 32 bit ≠ 0 then from_ else value

end Contents

/-- `tag` is the constant of its `case`, `initial` what the constructor sets. -/
structure Field where
  number : Nat
  tag : Nat
  type : FieldType
  label : Label
  initial : type.Value

/-- `required` is the mask in `IsInitialized`. -/
structure Class where
  name : String
  fields : List Field
  required : BitVec 32

/-- What the generated code uses of the protobuf library. `ReadTag` is
`ReadTagWithCutoffNoLastTag(127u)`. -/
structure WireFormat where
  ReadTag : List UInt8 → (Nat × Bool) × List UInt8
  WriteTag : Nat → List UInt8
  Read : ∀ t : FieldType, List UInt8 → Option (t.Value × List UInt8)
  Write : ∀ t : FieldType, t.Value → List UInt8
  Size : ∀ t : FieldType, t.Value → Nat
  UnknownField : Type
  AddVarint : Nat → UInt64 → UnknownField
  SkipField : Nat → List UInt8 → Option (UnknownField × List UInt8)
  WriteUnknown : UnknownField → List UInt8
  UnknownSize : UnknownField → Nat

namespace Class

variable (c : Class)

/-- The `case` for the tag. -/
def case (tag : Nat) : Option (Fin c.fields.length) := do
  let i ← (List.finRange c.fields.length).find? fun i => (c.fields.get i).number = tag / 8
  if tag % 256 = (c.fields.get i).tag then some i else none

end Class

structure GeneratedMessage (W : WireFormat) (c : Class) where
  _has_bits_ : BitVec 32
  contents : ∀ i : Fin c.fields.length, Contents (c.fields.get i).label (c.fields.get i).type
  unknown_fields : List W.UnknownField

namespace GeneratedMessage

variable {W : WireFormat} {c : Class}

/-- The constructor. -/
def new : GeneratedMessage W c :=
  ⟨0, fun i => .initial _ _ (c.fields.get i).initial, []⟩

variable (m : GeneratedMessage W c)

def addUnknown (u : W.UnknownField) : GeneratedMessage W c :=
  { m with unknown_fields := m.unknown_fields ++ [u] }

/-- The setter of a field. -/
def store (i : Fin c.fields.length) (value : (c.fields.get i).type.Value) : GeneratedMessage W c :=
  { m with
    _has_bits_ := m._has_bits_ ||| (c.fields.get i).label.mask
    contents := Function.update m.contents i (.add _ _ (m.contents i) value) }

/-- Behind the tag of a field. -/
def readField (i : Fin c.fields.length) (input : List UInt8) :
    Option (GeneratedMessage W c × List UInt8) := do
  let (value, input) ← W.Read (c.fields.get i).type input
  match (c.fields.get i).type.rejected value with
  | some raw => return (m.addUnknown (W.AddVarint (c.fields.get i).number raw), input)
  | none => return (m.store i value, input)

/-- One round of the loop; at a tag 0 it ends. -/
def round (m : GeneratedMessage W c) (input : List UInt8) :
    Option (Option (GeneratedMessage W c × List UInt8)) :=
  let ((tag, known), rest) := W.ReadTag input
  match if known then c.case tag else none with
  | some i => (m.readField i rest).map some
  | none =>
    if tag = 0 then some none
    else do
      let (u, rest) ← W.SkipField tag rest
      return some (m.addUnknown u, rest)

/-- With the input at which the tag was 0: `ConsumedEntireMessage` if there is none. -/
def MergePartialFromCodedStream (input : List UInt8) : Option (GeneratedMessage W c × List UInt8) :=
  readItems round (input.length + 1) m input

/-- The values of a field that are written. -/
def values (i : Fin c.fields.length) : List (c.fields.get i).type.Value :=
  Contents.values _ _ m._has_bits_ (m.contents i)

/-- The number of a field and its wire type. -/
def makeTag (f : Field) : Nat := f.number * 8 + f.type.wireType

def InternalSerializeWithCachedSizesToArray : List UInt8 :=
  ((List.finRange c.fields.length).flatMap fun i => (m.values i).flatMap fun value =>
    W.WriteTag (makeTag (c.fields.get i)) ++ W.Write _ value) ++ m.unknown_fields.flatMap W.WriteUnknown

/-- The size of a value; two types have constants for it. -/
def valueSize (W : WireFormat) : (t : FieldType) → t.Value → Nat
  | .fixed64, _ => 8
  | .bool, _ => 1
  | t, value => W.Size t value

/-- What the field adds to the size, its values behind tags of one byte. -/
def fieldSize (has : BitVec 32) (i : Fin c.fields.length) : Nat :=
  ((Contents.values _ _ has (m.contents i)).map fun value => 1 + valueSize W _ value).sum

def isRequired (c : Class) (i : Fin c.fields.length) : Bool :=
  match (c.fields.get i).label with
  | .required _ => true
  | .optional _ | .repeated => false

def RequiredFieldsByteSizeFallback : Nat :=
  (((List.finRange c.fields.length).filter (isRequired c)).map (m.fieldSize m._has_bits_)).sum

/-- Where all required fields are there, their bits are not looked at again. -/
def ByteSizeLong : Nat :=
  (m.unknown_fields.map W.UnknownSize).sum +
    (if (m._has_bits_ &&& c.required) ^^^ c.required = 0 then
      (((List.finRange c.fields.length).filter (isRequired c)).map
        (m.fieldSize (BitVec.allOnes 32))).sum
    else m.RequiredFieldsByteSizeFallback) +
    (((List.finRange c.fields.length).filter fun i => !isRequired c i).map
      (m.fieldSize m._has_bits_)).sum

def IsInitialized : Bool := m._has_bits_ &&& c.required = c.required

def MergeFrom (from_ : GeneratedMessage W c) : GeneratedMessage W c where
  _has_bits_ := m._has_bits_ ||| from_._has_bits_
  contents i := .merge _ _ (m.contents i) from_._has_bits_ (from_.contents i)
  unknown_fields := m.unknown_fields ++ from_.unknown_fields

end GeneratedMessage

end MuduoNet.Generated
