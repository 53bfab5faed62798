import MuduoNet.Generated.Parse
import MuduoNet.Generated.Wire

/-!
# The messages of the repository

One table for each generated class: the numbers and tags of its fields, their types, labels, bits
and first values, and the mask of `IsInitialized`. The tables are coherent, so all that holds of
coherent tables holds of the classes.
-/
namespace MuduoNet.Generated

/-- `MessageType_IsValid` -/
def MessageType : FieldType := .enumeration [1, 2, 3]

/-- `ErrorCode_IsValid` -/
def ErrorCode : FieldType := .enumeration [0, 1, 2, 3, 4, 5, 6]

def Query : Class where
  name := "muduo.Query"
  fields := [⟨1, 8, .int64, .required 1, 0⟩, ⟨2, 18, .string, .required 0, []⟩,
    ⟨3, 26, .string, .repeated, []⟩]
  required := 0x3

def Answer : Class where
  name := "muduo.Answer"
  fields := [⟨1, 8, .int64, .required 2, 0⟩, ⟨2, 18, .string, .required 0, []⟩,
    ⟨3, 26, .string, .required 1, []⟩, ⟨4, 34, .string, .repeated, []⟩]
  required := 0x7

def Empty : Class where
  name := "muduo.Empty"
  fields := [⟨1, 8, .int32, .optional 0, 0⟩]
  required := 0

def RpcMessage : Class where
  name := "muduo.RpcMessage"
  fields := [⟨1, 8, MessageType, .required 6, (1 : Int32)⟩, ⟨2, 17, .fixed64, .required 4, 0⟩,
    ⟨3, 26, .string, .optional 0, []⟩, ⟨4, 34, .string, .optional 1, []⟩,
    ⟨5, 42, .bytes, .optional 2, []⟩, ⟨6, 50, .bytes, .optional 3, []⟩,
    ⟨7, 56, ErrorCode, .optional 5, (0 : Int32)⟩]
  required := 0x50

def QueryResponse : Class where
  name := "median.QueryResponse"
  fields := [⟨1, 8, .int64, .required 0, 0⟩, ⟨2, 16, .int64, .optional 1, 0⟩,
    ⟨3, 24, .int64, .optional 2, 0⟩, ⟨4, 32, .int64, .optional 3, 0⟩]
  required := 0x1

def SearchRequest : Class where
  name := "median.SearchRequest"
  fields := [⟨1, 8, .int64, .required 0, 0⟩]
  required := 0x1

def SearchResponse : Class where
  name := "median.SearchResponse"
  fields := [⟨1, 8, .int64, .required 0, 0⟩, ⟨2, 16, .int64, .required 1, 0⟩]
  required := 0x3

def GenerateRequest : Class where
  name := "median.GenerateRequest"
  fields := [⟨1, 8, .int64, .required 0, 0⟩, ⟨2, 16, .int64, .required 1, 0⟩,
    ⟨3, 24, .int64, .required 2, 0⟩]
  required := 0x7

/-- The `Empty` of `median.proto`. -/
def MedianEmpty : Class where
  name := "median.Empty"
  fields := []
  required := 0

def SudokuRequest : Class where
  name := "sudoku.SudokuRequest"
  fields := [⟨1, 10, .string, .required 0, []⟩]
  required := 0x1

def SudokuResponse : Class where
  name := "sudoku.SudokuResponse"
  fields := [⟨1, 8, .bool, .optional 1, false⟩, ⟨2, 18, .string, .optional 0, []⟩]
  required := 0

def ListRpcRequest : Class where
  name := "muduo.net.ListRpcRequest"
  fields := [⟨1, 10, .string, .optional 0, []⟩, ⟨2, 16, .bool, .optional 1, false⟩]
  required := 0

def ListRpcResponse : Class where
  name := "muduo.net.ListRpcResponse"
  fields := [⟨1, 8, ErrorCode, .required 0, (0 : Int32)⟩, ⟨2, 18, .string, .repeated, []⟩,
    ⟨3, 26, .string, .repeated, []⟩]
  required := 0x1

def GetServiceRequest : Class where
  name := "muduo.net.GetServiceRequest"
  fields := [⟨1, 10, .string, .required 0, []⟩]
  required := 0x1

def GetServiceResponse : Class where
  name := "muduo.net.GetServiceResponse"
  fields := [⟨1, 8, ErrorCode, .required 0, (0 : Int32)⟩, ⟨2, 18, .string, .repeated, []⟩,
    ⟨3, 26, .string, .repeated, []⟩]
  required := 0x1

def classes : List Class :=
  [Query, Answer, Empty, RpcMessage, QueryResponse, SearchRequest, SearchResponse, GenerateRequest,
    MedianEmpty, SudokuRequest, SudokuResponse, ListRpcRequest, ListRpcResponse, GetServiceRequest,
    GetServiceResponse]

variable {W : WireFormat}

def Query.set_id (m : GeneratedMessage W Query) (value : Int64) : GeneratedMessage W Query :=
  m.store ⟨0, by decide⟩ value

def Query.set_questioner (m : GeneratedMessage W Query) (value : List UInt8) :
    GeneratedMessage W Query := m.store ⟨1, by decide⟩ value

def Query.add_question (m : GeneratedMessage W Query) (value : List UInt8) :
    GeneratedMessage W Query := m.store ⟨2, by decide⟩ value

def Answer.set_id (m : GeneratedMessage W Answer) (value : Int64) : GeneratedMessage W Answer :=
  m.store ⟨0, by decide⟩ value

def Answer.set_questioner (m : GeneratedMessage W Answer) (value : List UInt8) :
    GeneratedMessage W Answer := m.store ⟨1, by decide⟩ value

def Answer.set_answerer (m : GeneratedMessage W Answer) (value : List UInt8) :
    GeneratedMessage W Answer := m.store ⟨2, by decide⟩ value

def Answer.add_solution (m : GeneratedMessage W Answer) (value : List UInt8) :
    GeneratedMessage W Answer := m.store ⟨3, by decide⟩ value

instance (c : Class) : Decidable c.Coherent :=
  decidable_of_iff
    ((∀ i : Fin c.fields.length, (c.fields.get i).tag = GeneratedMessage.makeTag (c.fields.get i)) ∧
      (∀ i : Fin c.fields.length, 0 < (c.fields.get i).number ∧ (c.fields.get i).number < 16) ∧
      (∀ i j : Fin c.fields.length, (c.fields.get i).number = (c.fields.get j).number → i = j) ∧
      (∀ i : Fin c.fields.length, ∀ bit ∈ (c.fields.get i).label.bit, bit < 32) ∧
      (∀ i j : Fin c.fields.length, ∀ bit ∈ (c.fields.get i).label.bit,
        bit ∈ (c.fields.get j).label.bit → i = j) ∧
      ∀ bit : Fin 32, c.required.getLsbD bit = true ↔
        ∃ i : Fin c.fields.length, GeneratedMessage.isRequired c i = true ∧
          (c.fields.get i).label.bit = some bit.val)
    ⟨fun ⟨h1, h2, h3, h4, h5, h6⟩ => ⟨h1, h2, h3, h4, h5, h6⟩,
      fun h => ⟨h.tag, h.number, h.numbers, h.bit, h.bits, h.required⟩⟩

theorem classes_coherent : ∀ c ∈ classes, c.Coherent := by
  unfold classes
  decide +kernel

namespace GeneratedMessage

variable {c : Class} {m from_ : GeneratedMessage W c}

/-- A message that the functions of its class have made; the strings that are set are shorter than
2 GiB, the numbers are values of their enumerations. -/
inductive Built : GeneratedMessage W c → Prop
  | new : Built new
  | store {m : GeneratedMessage W c} (i : Fin c.fields.length) (v : (c.fields.get i).type.Value) :
    Built m → (c.fields.get i).type.rejected v = none → (c.fields.get i).type.Fits v →
      Built (m.store i v)
  | mergeFrom {m from_ : GeneratedMessage W c} : Built m → Built from_ → Built (m.MergeFrom from_)
  | parse {m m' : GeneratedMessage W c} {input rest : List UInt8} : Built m →
    m.MergePartialFromCodedStream input = some (m', rest) → Built m'

theorem Built.wf (hW : W.Lawful) (hc : c.Coherent) (h : Built m) : m.Wf := by
  induction h with
  | new => exact new_wf
  | store i v _ hv hfits ih => exact ih.store hc hv hfits
  | mergeFrom _ _ ih ih' => exact ih.mergeFrom hW hc ih'
  | parse _ hparse ih => exact ih.parsed hW hc hparse

/-- For every class and every message, however it was made of strings shorter than 2 GiB:
`ByteSizeLong` is the number of bytes written, and these, parsed into any message, do what
`MergeFrom` does; parsed alone they give the message back. -/
theorem generated_roundTrip (hW : W.Lawful) (hc : c ∈ classes) (h : Built from_)
    (m : GeneratedMessage W c) :
    from_.ByteSizeLong = from_.InternalSerializeWithCachedSizesToArray.length ∧
      m.MergePartialFromCodedStream from_.InternalSerializeWithCachedSizesToArray =
        some (m.MergeFrom from_, []) ∧
      new.MergePartialFromCodedStream from_.InternalSerializeWithCachedSizesToArray =
        some (from_, []) := by
  have hcoherent := classes_coherent c hc
  have hwf := h.wf hW hcoherent
  exact ⟨byteSizeLong_eq hW hcoherent hwf, merge_serialize hW hcoherent hwf m,
    parse_serialize hW hcoherent hwf⟩

theorem generated_roundTrip_query :
    let m : GeneratedMessage plain Query :=
      Query.add_question (Query.set_questioner (Query.set_id new 1) [67, 83]) [63]
    m.InternalSerializeWithCachedSizesToArray = [8, 1, 18, 2, 67, 83, 26, 1, 63] ∧
      m.ByteSizeLong = 9 ∧
      new.MergePartialFromCodedStream [8, 1, 18, 2, 67, 83, 26, 1, 63] = some (m, []) := by
  intro m
  have hbuilt : Built m := by
    refine .store _ _ (.store _ _ (.store _ _ .new rfl trivial) rfl ?_) rfl ?_
    · show ([67, 83] : List UInt8).length < 2 ^ 31
      decide
    · show ([63] : List UInt8).length < 2 ^ 31
      decide
  have hbytes : m.InternalSerializeWithCachedSizesToArray = [8, 1, 18, 2, 67, 83, 26, 1, 63] := by
    decide +kernel
  obtain ⟨hsize, _, hparse⟩ := generated_roundTrip plain_lawful (by simp [classes]) hbuilt new
  rw [hbytes] at hsize hparse
  exact ⟨hbytes, hsize, hparse⟩

/-- Two strings of bytes that a class accepts, one behind the other, are parsed to the first message
with the second merged into it; and a message is initialized exactly if one of the two has each
required field. -/
theorem generated_append (hW : W.Lawful) (hc : c ∈ classes) {l₁ l₂ : List UInt8}
    {m₁ m₂ : GeneratedMessage W c} (h₁ : new.MergePartialFromCodedStream l₁ = some (m₁, []))
    (h₂ : new.MergePartialFromCodedStream l₂ = some (m₂, [])) :
    new.MergePartialFromCodedStream (l₁ ++ l₂) = some (m₁.MergeFrom m₂, []) ∧
      ((m₁.MergeFrom m₂).IsInitialized = true ↔
        ∀ i, isRequired c i = true → m₁.values i ≠ [] ∨ m₂.values i ≠ []) := by
  have hcoherent := classes_coherent c hc
  refine ⟨parse_append hW hcoherent h₁ h₂, ?_⟩
  rw [isInitialized_iff hcoherent]
  have hvalues : ∀ {l : Label} {t : FieldType} {has has' : BitVec 32} (x y : Contents l t),
      (∃ bit, l = .required bit) → (Contents.values l t (has ||| has') (.merge l t x has' y) ≠ [] ↔
        Contents.values l t has x ≠ [] ∨ Contents.values l t has' y ≠ []) := by
    rintro l t has has' x y ⟨bit, rfl⟩
    dsimp only [Contents.values]
    rw [BitVec.and_twoPow, BitVec.and_twoPow, BitVec.and_twoPow, BitVec.getLsbD_or]
    cases has.getLsbD bit <;> cases has'.getLsbD bit <;>
      by_cases hzero : BitVec.twoPow 32 bit = 0 <;> simp [hzero]
  constructor
  · intro h i hi
    obtain ⟨bit, hlabel, _⟩ := required_bit hcoherent hi
    exact (hvalues _ _ ⟨bit, hlabel⟩).mp (h i hi)
  · intro h i hi
    obtain ⟨bit, hlabel, _⟩ := required_bit hcoherent hi
    exact (hvalues _ _ ⟨bit, hlabel⟩).mpr (h i hi)

/-- An id, and behind it a name, a question and a field that is not known. -/
theorem generated_append_query :
    ∃ m₁ m₂ : GeneratedMessage plain Query,
      new.MergePartialFromCodedStream [8, 1] = some (m₁, []) ∧
      new.MergePartialFromCodedStream [8, 2, 18, 1, 65, 26, 0, 120, 5] = some (m₂, []) ∧
      new.MergePartialFromCodedStream ([8, 1] ++ [8, 2, 18, 1, 65, 26, 0, 120, 5]) =
        some (m₁.MergeFrom m₂, []) := by
  have h₁ : ((new : GeneratedMessage plain Query).MergePartialFromCodedStream [8, 1]).map Prod.snd =
      some [] := by decide +kernel
  have h₂ : ((new : GeneratedMessage plain Query).MergePartialFromCodedStream
      [8, 2, 18, 1, 65, 26, 0, 120, 5]).map Prod.snd = some [] := by decide +kernel
  obtain ⟨⟨m₁, r₁⟩, h₁, rfl⟩ := Option.map_eq_some_iff.mp h₁
  obtain ⟨⟨m₂, r₂⟩, h₂, rfl⟩ := Option.map_eq_some_iff.mp h₂
  exact ⟨m₁, m₂, h₁, h₂, (generated_append plain_lawful (by simp [classes]) h₁ h₂).1⟩

end GeneratedMessage

end MuduoNet.Generated
