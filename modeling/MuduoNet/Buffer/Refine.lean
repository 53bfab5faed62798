import MuduoNet.Buffer.Spec
import MuduoNet.Lib.Machine

/-!
# `Buffer` refines a queue of bytes

`Queue` is the purpose of the component: a list of bytes that grows at the back, is pushed
back at the front, and is consumed from the front, with the values its calls return.
`machine` offers the calls of the source within their asserted preconditions. `Requests`
is what the source leaves unchecked: a request handed to `ensureWritableBytes` has to end
at an address that exists, or `len + kCheapPrepend` and `writerIndex_ + len` wrap.
-/
namespace MuduoNet.Buffer

open Lib Lib.Outcome Lib.Splice Lib.Words

inductive Op
  | append (data : Span)
  | ensureWritableBytes (len : Nat)
  /-- Bytes stored at `beginWrite()`, then `hasWritten` of their number. -/
  | hasWritten (data : List UInt8)
  | prepend (data : List UInt8)
  | retrieve (len : Nat)
  /-- The pointer `peek() + dist`. -/
  | retrieveUntil (dist : Nat)
  | retrieveAll
  | retrieveAsString
  | appendInt32 (x : Int)
  | peekInt32
  | readInt32
  | readFd (r : ReadvResult)

/-- What a call hands back to its caller. -/
inductive Out
  | int32 (x : Int)
  | string (bytes : List UInt8)
  | readFd (r : ReadFdResult)
  deriving DecidableEq, Repr

/-- A buffer together with the values its calls have returned, latest first. -/
structure Client where
  buf : Buffer
  outs : List Out
  deriving DecidableEq, Repr

/-- The preconditions of the source, and the types of its arguments: `len` is a `size_t`,
and `readv` cannot deliver more than the two areas it was given. -/
def Pre (b : Buffer) : Op → Prop
  | .append _ | .retrieveAll | .retrieveAsString | .appendInt32 _ => True
  | .ensureWritableBytes len => len < 2 ^ 64
  | .hasWritten data => data.length ≤ b.writableBytes
  | .prepend data => data.length ≤ b.prependableBytes
  | .retrieve len | .retrieveUntil len => len ≤ b.readableBytes
  | .peekInt32 | .readInt32 => 4 ≤ b.readableBytes
  | .readFd (.failed _) => True
  | .readFd (.delivered bytes) => bytes.length ≤ b.writableBytes + kExtrabuf

/-- The end of the requested space has an address. -/
def Requests (b : Buffer) : Op → Prop
  | .ensureWritableBytes len => b.writerIndex_ + len < 2 ^ 64
  | _ => True

instance (b : Buffer) : (op : Op) → Decidable (Pre b op)
  | .append _ | .retrieveAll | .retrieveAsString | .appendInt32 _ | .readFd (.failed _) =>
    isTrue trivial
  | .ensureWritableBytes len => inferInstanceAs (Decidable (len < 2 ^ 64))
  | .hasWritten data => inferInstanceAs (Decidable (data.length ≤ b.writableBytes))
  | .prepend data => inferInstanceAs (Decidable (data.length ≤ b.prependableBytes))
  | .retrieve len | .retrieveUntil len => inferInstanceAs (Decidable (len ≤ b.readableBytes))
  | .peekInt32 | .readInt32 => inferInstanceAs (Decidable (4 ≤ b.readableBytes))
  | .readFd (.delivered bytes) =>
    inferInstanceAs (Decidable (bytes.length ≤ b.writableBytes + kExtrabuf))

instance (b : Buffer) : (op : Op) → Decidable (Requests b op)
  | .ensureWritableBytes len => inferInstanceAs (Decidable (b.writerIndex_ + len < 2 ^ 64))
  | .append _ | .hasWritten _ | .prepend _ | .retrieve _ | .retrieveUntil _ | .retrieveAll
  | .retrieveAsString | .appendInt32 _ | .peekInt32 | .readInt32 | .readFd _ => isTrue trivial

def call (c : Client) : Op → Except Fault Client
  | .append data => do return { c with buf := ← c.buf.append data.bytes }
  | .ensureWritableBytes len => do return { c with buf := ← c.buf.ensureWritableBytes len }
  | .hasWritten data =>
    .ok { c with buf := (c.buf.copyAt c.buf.writerIndex_ data).hasWritten data.length }
  | .prepend data => do return { c with buf := ← c.buf.prepend data }
  | .retrieve len => do return { c with buf := ← c.buf.retrieve len }
  | .retrieveUntil dist =>
    do return { c with buf := ← c.buf.retrieveUntil (c.buf.readerIndex_ + dist) }
  | .retrieveAll => .ok { c with buf := c.buf.retrieveAll }
  | .retrieveAsString =>
    .ok ⟨c.buf.retrieveAsString.2, .string c.buf.retrieveAsString.1 :: c.outs⟩
  | .appendInt32 x => do return { c with buf := ← c.buf.appendInt32 x }
  | .peekInt32 => do return { c with outs := .int32 (← c.buf.peekInt32) :: c.outs }
  | .readInt32 => do
    let (x, b) ← c.buf.readInt32
    return ⟨b, .int32 x :: c.outs⟩
  | .readFd r => do
    let (res, b) ← c.buf.readFd r
    return ⟨b, .readFd res :: c.outs⟩

def machine : Machine Client Op Fault where
  enabled c op := Pre c.buf op
  step := call

def start : Client := ⟨new, []⟩

/-- Bytes of free space a call asks the storage for. -/
def Op.requested : Op → Nat
  | .append data => data.bytes.length
  | .ensureWritableBytes len => len
  | .appendInt32 _ => 4
  | .readFd (.delivered bytes) => bytes.length
  | _ => 0

/-- The reference: bytes in order, and the values returned, latest first. -/
structure Queue where
  bytes : List UInt8
  outs : List Out

def Queue.next (q : Queue) : Op → Queue
  | .append data => { q with bytes := q.bytes ++ data.bytes }
  | .ensureWritableBytes _ => q
  | .hasWritten data => { q with bytes := q.bytes ++ data }
  | .prepend data => { q with bytes := data ++ q.bytes }
  | .retrieve len | .retrieveUntil len => { q with bytes := q.bytes.drop len }
  | .retrieveAll => { q with bytes := [] }
  | .retrieveAsString => ⟨[], .string q.bytes :: q.outs⟩
  | .appendInt32 x => { q with bytes := q.bytes ++ int32Bytes x }
  | .peekInt32 => { q with outs := .int32 (int32Of (q.bytes.take 4)) :: q.outs }
  | .readInt32 => ⟨q.bytes.drop 4, .int32 (int32Of (q.bytes.take 4)) :: q.outs⟩
  | .readFd (.failed errno) => { q with outs := .readFd ⟨-1, some errno⟩ :: q.outs }
  | .readFd (.delivered bytes) =>
    ⟨q.bytes ++ bytes, .readFd ⟨bytes.length, none⟩ :: q.outs⟩

def Queue.empty : Queue := ⟨[], []⟩

/-- The buffer is sound and shows exactly what the reference holds. -/
structure Tracks (c : Client) (q : Queue) : Prop where
  wf : Wf c.buf
  bytes : c.buf.readable = q.bytes
  outs : c.outs = q.outs

theorem tracks_start : Tracks start Queue.empty := ⟨wf_new, readable_new, rfl⟩

/-- Within its precondition and its request a call tracks the reference. -/
theorem call_sat {c : Client} {q : Queue} (h : Tracks c q) {op : Op} (hpre : Pre c.buf op)
    (hreq : Requests c.buf op) :
    Sat (Exhausted (c.buf.readable.length + op.requested)) (call c op)
      (fun c' => Tracks c' (q.next op)) := by
  obtain ⟨hwf, hbytes, houts⟩ := h
  have hcount := length_readable hwf
  cases op with
  | append data =>
    refine sat_bind (append_span_sat hwf data) ?_
    intro b' ⟨hwf', hread⟩
    exact ⟨hwf', by rw [hread, hbytes]; rfl, houts⟩
  | ensureWritableBytes len =>
    refine sat_bind (ensureWritableBytes_sat hwf hreq) ?_
    intro b' ⟨hwf', hread, _⟩
    exact ⟨hwf', hread.trans hbytes, houts⟩
  | hasWritten data =>
    obtain ⟨hwf', hread⟩ := hasWritten_spec hwf hpre
    exact ⟨hwf', by rw [hread, hbytes]; rfl, houts⟩
  | prepend data =>
    refine sat_bind (sat_mono (prepend_sat hwf hpre) (fun _ => False.elim) (fun _ h => h)) ?_
    intro b' ⟨hwf', hread⟩
    exact ⟨hwf', by rw [hread, hbytes]; rfl, houts⟩
  | retrieve len =>
    have hlen : len ≤ c.buf.readable.length := by rw [hcount]; exact hpre
    refine sat_bind (sat_mono (retrieve_sat hwf hlen) (fun _ => False.elim) (fun _ h => h)) ?_
    intro b' ⟨hwf', hread⟩
    exact ⟨hwf', by rw [hread, hbytes]; rfl, houts⟩
  | retrieveUntil dist =>
    have hdist : dist ≤ c.buf.readableBytes := hpre
    have hr := hwf.reader_le
    rw [readableBytes_eq hwf] at hdist
    have hstop := retrieveUntil_sat hwf (Nat.le_add_right _ dist) (by omega)
    refine sat_bind (sat_mono hstop (fun _ => False.elim) (fun _ h => h)) ?_
    intro b' ⟨hwf', hread⟩
    rw [Nat.add_sub_cancel_left] at hread
    exact ⟨hwf', by rw [hread, hbytes]; rfl, houts⟩
  | retrieveAll => exact ⟨retrieveAll_wf hwf, readable_retrieveAll _, houts⟩
  | retrieveAsString =>
    refine ⟨retrieveAll_wf hwf, readable_retrieveAll _, ?_⟩
    change Out.string c.buf.readable :: c.outs = Out.string q.bytes :: q.outs
    rw [hbytes, houts]
  | appendInt32 x =>
    refine sat_bind (appendInt32_sat hwf x) ?_
    intro b' ⟨hwf', hread⟩
    exact ⟨hwf', by rw [hread, hbytes]; rfl, houts⟩
  | peekInt32 =>
    have hlen : 4 ≤ c.buf.readable.length := by rw [hcount]; exact hpre
    refine sat_bind (sat_mono (peekInt32_sat hwf hlen) (fun _ => False.elim) (fun _ h => h)) ?_
    intro x hx
    exact ⟨hwf, hbytes, by rw [hx, hbytes, houts]; rfl⟩
  | readInt32 =>
    have hlen : 4 ≤ c.buf.readable.length := by rw [hcount]; exact hpre
    refine sat_bind (sat_mono (readInt32_sat hwf hlen) (fun _ => False.elim) (fun _ h => h)) ?_
    intro ⟨x, b'⟩ ⟨hx, hwf', hread⟩
    obtain rfl : x = int32Of (c.buf.readable.take 4) := hx
    exact ⟨hwf', by rw [hread, hbytes]; rfl, by rw [hbytes, houts]; rfl⟩
  | readFd r =>
    cases r with
    | failed errno => exact ⟨hwf, hbytes, by rw [houts]; rfl⟩
    | delivered bytes =>
      refine sat_bind (readFd_delivered_sat hwf hpre) ?_
      intro ⟨res, b'⟩ ⟨hres, hwf', hread⟩
      obtain rfl : res = ⟨bytes.length, none⟩ := hres
      exact ⟨hwf', by rw [hread, hbytes]; rfl, by rw [houts]; rfl⟩

/-- A step keeps the refinement exactly when its request has an end address. -/
theorem call_sat_iff {c : Client} {q : Queue} (h : Tracks c q) {op : Op} (hpre : Pre c.buf op) :
    Sat (Exhausted (c.buf.readable.length + op.requested)) (call c op)
      (fun c' => Tracks c' (q.next op)) ↔ Requests c.buf op := by
  refine ⟨fun hs => ?_, call_sat h hpre⟩
  cases op with
  | ensureWritableBytes len =>
    by_contra hreq
    have hend : 2 ^ 64 ≤ c.buf.writerIndex_ + len := Nat.le_of_not_lt hreq
    rcases ensureWritableBytes_wraps h.wf hpre hend with hbad | ⟨b', hok, hbad⟩
    · have hcall : call c (.ensureWritableBytes len) = .error .assertion := by rw [call, hbad]; rfl
      obtain ⟨hf, _⟩ := hs.of_error hcall
      cases hf
    · have hcall : call c (.ensureWritableBytes len) = .ok { c with buf := b' } := by
        rw [call, hok]
        rfl
      exact hbad (hs.of_ok hcall).wf
  | _ => trivial

/-- The runs in which every requested space ends at an address. -/
def honest : Machine Client Op Fault := machine.restrict (fun c op => Requests c.buf op)

theorem honest_tracks {ops : List Op} {c : Client} (h : Run honest start ops c) :
    Tracks c (ops.foldl Queue.next Queue.empty) := by
  refine Run.simulates (M := honest) (R := Tracks) ?_ h tracks_start
  intro c op c' q ht he hs
  exact (call_sat ht he.1 he.2).of_ok hs

/-- The reachable buffers of honest runs are sound. -/
theorem honest_wf {c : Client} (h : Reachable honest start c) : Wf c.buf := by
  obtain ⟨ops, hr⟩ := h
  exact (honest_tracks hr).wf

/-- In every run whose requests end at an address the buffer is the queue of bytes: contents
and returned values agree, a failing `readFd` changes nothing, no assertion can fail, and
the indices are in order. A further step keeps all this exactly when its request does. -/
theorem buffer_refines_queue {ops : List Op} {c : Client} (h : Run honest start ops c) :
    let q := ops.foldl Queue.next Queue.empty
    (c.buf.readable = q.bytes ∧ c.outs = q.outs) ∧
    (c.buf.readerIndex_ ≤ c.buf.writerIndex_ ∧ c.buf.writerIndex_ ≤ c.buf.buffer_.length ∧
      kCheapPrepend ≤ c.buf.writerIndex_) ∧
    (∀ errno, c.buf.readFd (.failed errno) = .ok (⟨-1, some errno⟩, c.buf)) ∧
    (∀ op, Pre c.buf op → Requests c.buf op → call c op ≠ .error .assertion) ∧
    ∀ op, Pre c.buf op →
      (Sat (Exhausted (c.buf.readable.length + op.requested)) (call c op)
        (fun c' => Tracks c' (q.next op)) ↔ Requests c.buf op) := by
  intro q
  have ht : Tracks c q := honest_tracks h
  refine ⟨⟨ht.bytes, ht.outs⟩, ⟨ht.wf.reader_le, ht.wf.writer_le, ht.wf.cheap_le⟩, fun _ => rfl,
    ?_, fun op hpre => call_sat_iff ht hpre⟩
  intro op hpre hreq hbad
  obtain ⟨hf, _⟩ := (call_sat ht hpre hreq).of_error hbad
  cases hf

instance (c : Client) (op : Op) : Decidable (honest.enabled c op) :=
  inferInstanceAs (Decidable (Pre c.buf op ∧ Requests c.buf op))

/-- A run that prepends, reads past an error, and empties the buffer. -/
theorem buffer_refines_queue_run :
    let ops : List Op := [.append ⟨[1, 2, 3], by decide⟩, .retrieve 2, .prepend [9],
      .readFd (.delivered [4, 5]), .readFd (.failed 11), .retrieveAsString]
    ∃ c, Run honest start ops c ∧ c.buf.readable = [] ∧
      c.outs = [.string [9, 3, 4, 5], .readFd ⟨-1, some 11⟩, .readFd ⟨2, none⟩] := by
  intro ops
  obtain ⟨c, hr, _⟩ : ∃ c, Run honest start ops c ∧ True :=
    exists_run_of_exec (fun _ => True) (by decide +kernel)
  obtain ⟨⟨hbytes, houts⟩, _⟩ := buffer_refines_queue hr
  exact ⟨c, hr, hbytes, houts⟩

/-- The unchecked request: `len + kCheapPrepend` wraps to 7, the compacting branch is taken,
and its assertion fails on a new buffer. -/
theorem ensureWritableBytes_trips :
    machine.enabled start (.ensureWritableBytes (2 ^ 64 - 1)) ∧
      machine.step start (.ensureWritableBytes (2 ^ 64 - 1)) = .error .assertion := by
  have hsize : 2 ^ 64 - 1 < 2 ^ 64 := by decide
  refine ⟨hsize, ?_⟩
  have hfull : new.ensureWritableBytes (2 ^ 64 - 1) = .error .assertion := by decide +kernel
  change call start (.ensureWritableBytes (2 ^ 64 - 1)) = _
  rw [call, start, hfull]
  rfl

end MuduoNet.Buffer
