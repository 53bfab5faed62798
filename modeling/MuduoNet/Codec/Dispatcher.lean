import MuduoNet.Codec.RoundTrip
import Mathlib.Logic.Function.Basic

/-!
# The two dispatchers

A dispatcher is the message callback of a codec: it finds the user's callback for the type of a
message. `ProtobufDispatcherLite` hands the message on as it is, `ProtobufDispatcher` casts it to
the class it was registered for. Callbacks are named, and the results are the calls that are made.
-/
namespace MuduoNet

open Lib Lib.Outcome ProtobufCodec

/-- The library with its message classes: `descriptor` is `T::descriptor()`, and `isInstance` says
whether `dynamic_cast<T *>` succeeds. -/
structure TypedProtobuf extends Protobuf where
  [decEq : DecidableEq Descriptor]
  Class : Type
  GetDescriptor : Message → Descriptor
  descriptor : Class → Descriptor
  isInstance : Class → Message → Bool

attribute [instance] TypedProtobuf.decEq

/-- The generated factory makes the messages of a type as instances of the class generated for
it. -/
def TypedProtobuf.Casts (P : TypedProtobuf) : Prop :=
  ∀ T m, P.GetDescriptor m = P.descriptor T → P.isInstance T m = true

variable (P : TypedProtobuf) {β : Type}

structure ProtobufDispatcherLite (β : Type) where
  callbacks_ : P.Descriptor → Option β
  defaultCallback_ : β

namespace ProtobufDispatcherLite

variable {P}

/-- The constructor. -/
def new (cb : β) : ProtobufDispatcherLite P β := ⟨fun _ => none, cb⟩

def registerMessageCallback (d : ProtobufDispatcherLite P β) (desc : P.Descriptor) (cb : β) :
    ProtobufDispatcherLite P β :=
  { d with callbacks_ := Function.update d.callbacks_ desc (some cb) }

/-- The callback, and the message it is called with. -/
def onProtobufMessage (d : ProtobufDispatcherLite P β) (message : P.Message) : β × P.Message :=
  match d.callbacks_ (P.GetDescriptor message) with
  | some cb => (cb, message)
  | none => (d.defaultCallback_, message)

theorem onProtobufMessage_register (d : ProtobufDispatcherLite P β) (desc : P.Descriptor) (cb : β)
    (message : P.Message) : (d.registerMessageCallback desc cb).onProtobufMessage message =
      if P.GetDescriptor message = desc then (cb, message) else d.onProtobufMessage message := by
  unfold onProtobufMessage
  dsimp only [registerMessageCallback]
  by_cases hdesc : P.GetDescriptor message = desc
  · rw [if_pos hdesc, hdesc, Function.update_self]
  · rw [if_neg hdesc, Function.update_of_ne hdesc]

end ProtobufDispatcherLite

/-- `CallbackT<T>` -/
structure CallbackT (β : Type) where
  T : P.Class
  callback_ : β

/-- `down_pointer_cast`, whose assertion is also that of the caller. -/
def CallbackT.onMessage {P} (c : CallbackT P β) (message : P.Message) :
    Except Fault (β × P.Message) := do
  assert (P.isInstance c.T message = true)
  return (c.callback_, message)

structure ProtobufDispatcher (β : Type) where
  callbacks_ : P.Descriptor → Option (CallbackT P β)
  defaultCallback_ : β

namespace ProtobufDispatcher

variable {P}

/-- The constructor. -/
def new (cb : β) : ProtobufDispatcher P β := ⟨fun _ => none, cb⟩

def registerMessageCallback (d : ProtobufDispatcher P β) (T : P.Class) (cb : β) :
    ProtobufDispatcher P β :=
  { d with callbacks_ := Function.update d.callbacks_ (P.descriptor T) (some ⟨T, cb⟩) }

def onProtobufMessage (d : ProtobufDispatcher P β) (message : P.Message) :
    Except Fault (β × P.Message) :=
  match d.callbacks_ (P.GetDescriptor message) with
  | some c => c.onMessage message
  | none => .ok (d.defaultCallback_, message)

/-- One registration after the other. -/
def registerAll (d : ProtobufDispatcher P β) (registrations : List (P.Class × β)) :
    ProtobufDispatcher P β :=
  registrations.foldl (fun d r => d.registerMessageCallback r.1 r.2) d

/-- The dispatcher without its casts. -/
def lite (d : ProtobufDispatcher P β) : ProtobufDispatcherLite P β :=
  ⟨fun desc => (d.callbacks_ desc).map CallbackT.callback_, d.defaultCallback_⟩

/-- Each callback stands under the descriptor of its class. -/
def Keyed (d : ProtobufDispatcher P β) : Prop :=
  ∀ desc c, d.callbacks_ desc = some c → P.descriptor c.T = desc

variable {d : ProtobufDispatcher P β} {message : P.Message}

theorem new_keyed (cb : β) : (new cb : ProtobufDispatcher P β).Keyed := by
  intro desc c h
  cases h

theorem Keyed.register (h : d.Keyed) (T : P.Class) (cb : β) :
    (d.registerMessageCallback T cb).Keyed := by
  intro desc c hc
  dsimp only [registerMessageCallback] at hc
  by_cases hdesc : desc = P.descriptor T
  · rw [hdesc, Function.update_self] at hc
    obtain rfl := Option.some.inj hc
    exact hdesc.symm
  · rw [Function.update_of_ne hdesc] at hc
    exact h desc c hc

theorem lite_register (d : ProtobufDispatcher P β) (T : P.Class) (cb : β) :
    (d.registerMessageCallback T cb).lite = d.lite.registerMessageCallback (P.descriptor T) cb := by
  unfold lite registerMessageCallback ProtobufDispatcherLite.registerMessageCallback
  congr 1
  funext desc
  by_cases hdesc : desc = P.descriptor T
  · subst hdesc
    simp
  · simp [Function.update_of_ne hdesc]

/-- A cast never fails, and the typed dispatcher calls what the other one calls. -/
theorem Keyed.onProtobufMessage_eq (hP : P.Casts) (h : d.Keyed) (message : P.Message) :
    d.onProtobufMessage message = .ok (d.lite.onProtobufMessage message) := by
  unfold onProtobufMessage ProtobufDispatcherLite.onProtobufMessage lite
  cases hc : d.callbacks_ (P.GetDescriptor message) with
  | none => simp [hc]
  | some c =>
    have hcast := hP c.T message (h _ c hc).symm
    simp only [hc, CallbackT.onMessage, MuduoNet.assert, demand_true hcast, ok_bind]
    rfl

theorem keyed_registerAll (h : d.Keyed) (registrations : List (P.Class × β)) :
    (d.registerAll registrations).Keyed := by
  induction registrations generalizing d with
  | nil => exact h
  | cons r registrations ih => exact ih (h.register r.1 r.2)

/-- The callback that was registered last for the type of the message, or the default one. -/
def lastFor (registrations : List (P.Class × β)) (cb : β) (message : P.Message) : β :=
  ((registrations.reverse.find? fun r => P.descriptor r.1 = P.GetDescriptor message).map
    Prod.snd).getD cb

theorem lastFor_concat (registrations : List (P.Class × β)) (r : P.Class × β) (cb : β)
    (message : P.Message) : lastFor (registrations ++ [r]) cb message =
      if P.descriptor r.1 = P.GetDescriptor message then r.2
      else lastFor registrations cb message := by
  unfold lastFor
  rw [List.reverse_append, List.reverse_singleton, List.singleton_append, List.find?_cons]
  by_cases hdesc : P.descriptor r.1 = P.GetDescriptor message <;> simp [hdesc]

theorem lite_registerAll (registrations : List (P.Class × β)) (cb : β) (message : P.Message) :
    ((new cb).registerAll registrations).lite.onProtobufMessage message =
      (lastFor registrations cb message, message) := by
  induction registrations using List.reverseRecOn with
  | nil => rfl
  | append_singleton registrations r ih =>
    have hsnoc : (new cb : ProtobufDispatcher P β).registerAll (registrations ++ [r]) =
        ((new cb).registerAll registrations).registerMessageCallback r.1 r.2 := List.foldl_concat ..
    rw [hsnoc, lite_register, ProtobufDispatcherLite.onProtobufMessage_register, lastFor_concat, ih]
    by_cases hdesc : P.descriptor r.1 = P.GetDescriptor message
    · rw [if_pos hdesc, if_pos hdesc.symm]
    · rw [if_neg hdesc, if_neg (Ne.symm hdesc)]

/-- The calls that a codec with this dispatcher makes for a stream that arrives in chunks. -/
def feed (d : ProtobufDispatcher P β) (chunks : List Span) (buf : Buffer) :
    Except Fault (List (β × P.Message)) := do
  let (events, _) ← ProtobufCodec.feed P.toProtobuf chunks buf
  (events.filterMap Event.message).mapM d.onProtobufMessage

/-- For every stream, however it is cut: each message of its longest prefix of valid frames is
handed, in order, to the callback registered last for its type, or to the default one; no cast
fails. -/
theorem dispatched (hP : P.Casts) (registrations : List (P.Class × β)) (cb : β)
    (stream : List UInt8) : ∃ frames : List (List UInt8 × P.Message),
      (∃ rest, stream = frames.flatMap Prod.fst ++ rest ∧
        ∀ gs r, stream = gs.flatMap Prod.fst ++ r →
          (∀ g ∈ gs, ValidFrame P.toProtobuf g.1 g.2) → gs <+: frames) ∧
      (∀ f ∈ frames, ValidFrame P.toProtobuf f.1 f.2) ∧
      ∀ chunks : List Span, chunks.flatMap Span.bytes = stream →
        Sat (Buffer.Exhausted stream.length) (((new cb).registerAll registrations).feed chunks .new)
          (fun calls => calls = frames.map fun f => (lastFor registrations cb f.2, f.2)) := by
  obtain ⟨frames, rest, hd⟩ := exists_decodes (framing P.toProtobuf) stream
  refine ⟨frames, ⟨rest, hd.symbols_append, ?_⟩, ?_, ?_⟩
  · intro gs r hgs hvalid
    exact hd.longest hgs fun g hg => (validFrame_iff _ _ _).mp (hvalid g hg)
  · intro f hf
    exact (validFrame_iff _ _ _).mpr (hd.valid f hf)
  · intro chunks hchunks
    have hstop : ∀ m n, head P.toProtobuf Buffer.new.readable ≠ .frame m n := by
      rw [Buffer.readable_new]
      exact (framing P.toProtobuf).head_nil
    have hfeed := feed_sat P.toProtobuf chunks Buffer.wf_new hstop
    rw [Buffer.readable_new, List.nil_append, hchunks] at hfeed
    apply sat_bind hfeed
    rintro ⟨events, buf⟩ ⟨_, _, fs, hd', hmessages⟩
    obtain ⟨rfl, _⟩ := hd.unique hd'
    dsimp only at hmessages ⊢
    rw [hmessages]
    clear hmessages hd hd' hfeed
    have hkeyed := keyed_registerAll (new_keyed cb) registrations
    have hcall : ∀ m, ((new cb).registerAll registrations).onProtobufMessage m =
        .ok (lastFor registrations cb m, m) := by
      intro m
      rw [hkeyed.onProtobufMessage_eq hP, lite_registerAll]
    induction frames with
    | nil => rfl
    | cons f frames ih =>
      rw [List.map_cons, List.mapM_cons, hcall, ok_bind]
      exact sat_bind ih fun calls hcalls => by simp [hcalls]

/-- The one class of `emptyMessages`. -/
def emptyClasses : TypedProtobuf where
  toProtobuf := emptyMessages
  decEq := fun (_ _ : Unit) => isTrue rfl
  Class := Unit
  GetDescriptor _ := ()
  descriptor _ := ()
  isInstance _ _ := true

/-- The callback registered last is called, though the frame comes in two pieces with bytes behind
it. -/
theorem dispatched_empty :
    let bytes := frame emptyMessages (some (42 : Fin 128))
    let chunks : List Span :=
      [⟨bytes.take 10, by decide +kernel⟩, ⟨bytes.drop 10 ++ [1, 2], by decide +kernel⟩]
    ∃ calls : List (Nat × emptyMessages.Message),
      ((new 0).registerAll [((), 1), ((), 2)] : ProtobufDispatcher emptyClasses Nat).feed chunks .new =
        .ok calls ∧ ∀ call ∈ calls, call.1 = 2 := by
  intro bytes chunks
  obtain ⟨frames, _, _, hcalls⟩ := dispatched (P := emptyClasses) (fun _ _ _ => rfl)
    [((), 1), ((), 2)] 0 (bytes ++ [1, 2])
  have hfeed := hcalls chunks (by decide +kernel)
  have hsome : (((new 0).registerAll [((), 1), ((), 2)] :
      ProtobufDispatcher emptyClasses Nat).feed chunks .new).toOption.isSome = true := by decide +kernel
  obtain ⟨calls, hcalls⟩ := Option.isSome_iff_exists.mp hsome
  have hok := eq_ok_of_toOption hcalls
  refine ⟨calls, hok, ?_⟩
  rw [hfeed.of_ok hok]
  intro call hcall
  obtain ⟨f, _, hf⟩ := List.mem_map.mp hcall
  rw [← hf]
  rfl

end ProtobufDispatcher

end MuduoNet
