import MuduoNet.Rpc.Wire
import MuduoNet.Generated.Pool

/-!
# The generated `RpcMessage`

The codec and the channel rely on a few laws of the protobuf library and of the class `RpcMessage`.
They follow from what the library documents and from the generated code. A message need not be sound
here, so that any strings can be set; the ones that are too long for the library are not encoded.
-/
namespace MuduoNet.Rpc

open Lib ProtobufCodec
open MuduoNet.Generated (GeneratedMessage WireFormat Linked Pool classes typeName classes_coherent)
open MuduoNet.Generated.GeneratedMessage

theorem sudokuClasses_known :
    ∀ c ∈ [Generated.RpcMessage, Generated.SudokuRequest, Generated.SudokuResponse], c ∈ classes := by
  simp [classes]

/-- The classes of `rpc.proto` and `sudoku.proto`. -/
def sudokuClasses : Linked where
  classes := [Generated.RpcMessage, Generated.SudokuRequest, Generated.SudokuResponse]
  known := sudokuClasses_known
  distinct := by decide +kernel

abbrev SudokuClass : Type := Fin sudokuClasses.classes.length

def rpc_ : SudokuClass := ⟨0, by decide⟩
def sudokuRequest_ : SudokuClass := ⟨1, by decide⟩
def sudokuResponse_ : SudokuClass := ⟨2, by decide⟩

def MessageType.toInt32 (t : MessageType) : Int32 := .ofNat t.number.toNat

/-- What `static_cast` makes of a number; there are no others in a message. -/
def MessageType.ofInt32 (n : Int32) : MessageType :=
  if n = 2 then RESPONSE else if n = 3 then ERROR else REQUEST

def ErrorCode.toInt32 (e : ErrorCode) : Int32 := .ofNat e.number.toNat

def ErrorCode.ofInt32 (n : Int32) : ErrorCode :=
  ([WRONG_PROTO, NO_SERVICE, NO_METHOD, INVALID_REQUEST, INVALID_RESPONSE, TIMEOUT].find?
    fun e => e.toInt32 = n).getD NO_ERROR

namespace RpcMessage

variable {W : WireFormat}

/-- What is set of the fields. -/
def contents (m : RpcMessage) : ∀ i : Fin Generated.RpcMessage.fields.length,
    Option (Generated.RpcMessage.fields.get i).type.Value
  | ⟨0, _⟩ => some m.type.toInt32
  | ⟨1, _⟩ => some m.id
  | ⟨2, _⟩ => m.service
  | ⟨3, _⟩ => m.method
  | ⟨4, _⟩ => m.request
  | ⟨5, _⟩ => m.response
  | ⟨6, _⟩ => m.error.map ErrorCode.toInt32

def toGenerated (m : RpcMessage) : GeneratedMessage W Generated.RpcMessage := setAll m.contents

/-- The getters, where the functions with `has_` say that there is something. The first two fields
are there in a message that has been parsed. -/
def ofGenerated (g : GeneratedMessage W Generated.RpcMessage) : RpcMessage where
  type := (g.values ⟨0, by decide⟩).head?.elim .REQUEST .ofInt32
  id := (g.values ⟨1, by decide⟩).head?.getD (0 : UInt64)
  service := (g.values ⟨2, by decide⟩).head?
  method := (g.values ⟨3, by decide⟩).head?
  request := (g.values ⟨4, by decide⟩).head?
  response := (g.values ⟨5, by decide⟩).head?
  error := (g.values ⟨6, by decide⟩).head?.map ErrorCode.ofInt32

theorem coherent : Generated.RpcMessage.Coherent := classes_coherent _ (by simp [classes])

variable (m : RpcMessage)

theorem values_toGenerated (i : Fin Generated.RpcMessage.fields.length) :
    (m.toGenerated : GeneratedMessage W _).values i = (m.contents i).toList :=
  values_setAll coherent (by revert i; decide)

theorem type_toInt32 (t : MessageType) : MessageType.ofInt32 t.toInt32 = t := by
  cases t <;> decide

theorem error_toInt32 (e : ErrorCode) : ErrorCode.ofInt32 e.toInt32 = e := by
  cases e <;> decide

theorem ofGenerated_toGenerated : ofGenerated (m.toGenerated : GeneratedMessage W _) = m := by
  have herror : (m.error.map ErrorCode.toInt32).map ErrorCode.ofInt32 = m.error := by
    cases m.error with
    | none => rfl
    | some e => exact congrArg some (error_toInt32 e)
  unfold ofGenerated
  simp only [values_toGenerated, Option.head?_toList]
  show RpcMessage.mk (.ofInt32 m.type.toInt32) m.id m.service m.method m.request m.response
    ((m.error.map ErrorCode.toInt32).map ErrorCode.ofInt32) = m
  rw [type_toInt32, herror]

/-- The strings are shorter than 2 GiB. -/
def Short : Prop :=
  ∀ o ∈ [m.service, m.method, m.request, m.response], ∀ v ∈ o, v.length < 2 ^ 31

theorem Short.sound {m : RpcMessage} (h : m.Short) (i : Fin Generated.RpcMessage.fields.length)
    (v : (Generated.RpcMessage.fields.get i).type.Value) (hv : v ∈ m.contents i) :
    (Generated.RpcMessage.fields.get i).type.rejected v = none ∧
      (Generated.RpcMessage.fields.get i).type.Fits v := by
  match i, v, hv with
  | ⟨0, _⟩, _, rfl => cases m.type <;> exact ⟨rfl, trivial⟩
  | ⟨1, _⟩, _, _ => exact ⟨rfl, trivial⟩
  | ⟨2, _⟩, v, hv => exact ⟨rfl, h m.service (by simp) v hv⟩
  | ⟨3, _⟩, v, hv => exact ⟨rfl, h m.method (by simp) v hv⟩
  | ⟨4, _⟩, v, hv => exact ⟨rfl, h m.request (by simp) v hv⟩
  | ⟨5, _⟩, v, hv => exact ⟨rfl, h m.response (by simp) v hv⟩
  | ⟨6, _⟩, v, hv =>
    obtain ⟨e, _, rfl⟩ := Option.map_eq_some_iff.mp hv
    cases e <;> exact ⟨rfl, trivial⟩

/-- The strings are parts of the bytes. -/
theorem short_of_length (hV : W.Verbatim) (h : (m.toGenerated :
    GeneratedMessage W _).InternalSerializeWithCachedSizesToArray.length < 2 ^ 31) : m.Short := by
  have hwritten : ∀ i, ∀ v ∈ m.contents i,
      (Generated.RpcMessage.fields.get i).type.width v < 2 ^ 31 := by
    intro i v hv
    refine Nat.lt_of_le_of_lt (Nat.le_trans (hV _ v) (length_write_le ?_)) h
    rw [values_toGenerated]
    exact Option.mem_toList.mpr hv
  intro o ho v hv
  simp only [List.mem_cons, List.not_mem_nil, or_false] at ho
  obtain rfl | rfl | rfl | rfl := ho
  · exact hwritten ⟨2, by decide⟩ v hv
  · exact hwritten ⟨3, by decide⟩ v hv
  · exact hwritten ⟨4, by decide⟩ v hv
  · exact hwritten ⟨5, by decide⟩ v hv

theorem toGenerated_wf (h : m.Short) : (m.toGenerated : GeneratedMessage W _).Wf :=
  setAll_wf coherent h.sound

theorem toGenerated_initialized : (m.toGenerated : GeneratedMessage W _).IsInitialized = true := by
  refine (isInitialized_iff coherent _).mpr ?_
  intro i hi
  rw [values_toGenerated]
  match i with
  | ⟨0, _⟩ | ⟨1, _⟩ => exact List.cons_ne_nil _ _
  | ⟨2, _⟩ | ⟨3, _⟩ | ⟨4, _⟩ | ⟨5, _⟩ | ⟨6, _⟩ => cases hi

end RpcMessage

section

variable {W : WireFormat} (L : Pool W sudokuClasses)

/-- What the codec and the channel use of the library. -/
def rpcProtobuf : RpcProtobuf where
  toProtobuf := L.toProtobuf
  asRpc m := (L.cast rpc_ m).map RpcMessage.ofGenerated
  ofRpc m := L.object rpc_ m.toGenerated

variable {L}

theorem rpcProtobuf_sound (hL : L.Lawful) (hW : W.Lawful) (hV : W.Verbatim) : (rpcProtobuf L).Sound where
  toLawful := hL.protobuf hW
  cast m := by
    have hcast : L.cast rpc_ (L.object rpc_ m.toGenerated) = some m.toGenerated := hL.cast_object rpc_ _
    show (L.cast rpc_ (L.object rpc_ m.toGenerated)).map RpcMessage.ofGenerated = some m
    rw [hcast]
    exact congrArg some m.ofGenerated_toGenerated
  roundTrip m hlen := by
    have hwritten := hL.written_object rpc_ m.toGenerated
    have hlen' : (m.toGenerated :
        GeneratedMessage W _).InternalSerializeWithCachedSizesToArray.length < 2 ^ 31 :=
      (congrArg List.length hwritten).symm.trans_lt hlen
    exact ⟨_, hL.encodable hW (m.toGenerated_wf (m.short_of_length hV hlen')) m.toGenerated_initialized
      hlen'⟩

/-- The bytes of the strings. -/
def RpcMessage.strings (m : RpcMessage) : Nat :=
  (m.service.getD []).length + (m.method.getD []).length + (m.request.getD []).length +
    (m.response.getD []).length

theorem rpcProtobuf_fits (hL : L.Lawful) (hW : W.Lawful) {m : RpcMessage}
    (h : m.strings + 102 ≤ kMaxMessageLen) : (rpcProtobuf L).Fits m := by
  unfold RpcMessage.strings at h
  have hshort : m.Short := by
    intro o ho v hv
    have hbound : kMaxMessageLen < 2 ^ 31 := by decide
    simp only [List.mem_cons, List.not_mem_nil, or_false] at ho
    obtain rfl | rfl | rfl | rfl := ho <;>
    · rw [Option.mem_def.mp hv, Option.getD_some] at h
      omega
  have hwidth : ∀ o : Option (List UInt8),
      (o.elim 0 fun v => 11 + v.length) ≤ 11 + (o.getD []).length := by
    intro o
    cases o <;> simp
  have herror : ((m.error.map ErrorCode.toInt32).elim 0 fun _ => 11) ≤ 11 := by
    cases m.error <;> simp
  have hlen := length_setAll_le hW RpcMessage.coherent fun i v hv => (hshort.sound i v hv).2
  change (m.toGenerated : GeneratedMessage W _).InternalSerializeWithCachedSizesToArray.length ≤
    11 + (11 + ((m.service.elim 0 fun v => 11 + v.length) + ((m.method.elim 0 fun v => 11 + v.length) +
      ((m.request.elim 0 fun v => 11 + v.length) + ((m.response.elim 0 fun v => 11 + v.length) +
        (((m.error.map ErrorCode.toInt32).elim 0 fun _ => 11) + 0)))))) at hlen
  have hservice := hwidth m.service
  have hmethod := hwidth m.method
  have hrequest := hwidth m.request
  have hresponse := hwidth m.response
  have hname : (typeName (sudokuClasses.classes.get rpc_)).length = 16 := by decide +kernel
  have hbody : (body L.toProtobuf (L.object rpc_ m.toGenerated)).length =
      9 + (typeName (sudokuClasses.classes.get rpc_)).length +
        (m.toGenerated : GeneratedMessage W _).InternalSerializeWithCachedSizesToArray.length :=
    hL.length_body rpc_ _
  show (body L.toProtobuf (L.object rpc_ m.toGenerated)).length ≤ _
  omega

end

end MuduoNet.Rpc
