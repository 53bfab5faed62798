import MuduoNet.Buffer.Refine

/-!
# How long the storage of a buffer gets

Retrieving moves the read index up, and only a buffer that is emptied at once moves it back. The
storage grows if what is free at both ends is less than what is asked for, and then by no more
than that. So it is bounded by what has been readable and asked for at one time, however long the
run is.
-/
namespace MuduoNet.Buffer

open Lib Lib.Outcome Lib.Splice Lib.Words

/-- The buffer that `readFd` appends the rest of the bytes to. -/
def filled (b : Buffer) (bytes : List UInt8) : Buffer :=
  let copied := b.copyAt b.writerIndex_ (bytes.take b.writableBytes)
  { copied with writerIndex_ := copied.buffer_.length }

/-- The readable bytes and the bytes asked for, where a call makes sure of space for them. -/
def demanded (b : Buffer) : Op → Nat
  | .append data => b.readableBytes + data.bytes.length
  | .ensureWritableBytes len => b.readableBytes + len
  | .appendInt32 x => b.readableBytes + (int32Bytes x).length
  | .readFd (.delivered bytes) =>
    if bytes.length ≤ b.writableBytes then 0
    else (b.filled bytes).readableBytes + (bytes.drop b.writableBytes).length
  | .readFd (.failed _) | .hasWritten _ | .prepend _ | .retrieve _ | .retrieveUntil _
  | .retrieveAll | .retrieveAsString | .peekInt32 | .readInt32 => 0

/-- The most that has been demanded at one time. -/
def peak (c : Client) (ops : List Op) : Nat :=
  machine.track (fun m c op => max m (c.buf.demanded op)) 0 c ops

/-- The length of the storage after a call for which `n` bytes are demanded. -/
def Grown (b : Buffer) (n : Nat) (b' : Buffer) : Prop :=
  b'.buffer_.length ≤ max b.buffer_.length (2 * n + kCheapPrepend - 1)

section

variable {b b' : Buffer} {len n : Nat}

theorem Grown.of_eq (h : b'.buffer_.length = b.buffer_.length) : Grown b n b' := by
  unfold Grown
  omega

theorem copyAt_size {i : Nat} {data : List UInt8} (h : i + data.length ≤ b.buffer_.length) :
    (b.copyAt i data).buffer_.length = b.buffer_.length :=
  length_overwrite h

/-- The growing branch is taken only if the free space is short of the request, so that the end
of the requested space is near the end of the storage. -/
theorem makeSpace_grown (hb : Wf b) (hlen : b.writerIndex_ + len < 2 ^ 64)
    (h : b.makeSpace len = .ok b') : Grown b (b.readableBytes + len) b' := by
  have hcheap := hb.cheap_le
  have hreq : wrap 64 (len + kCheapPrepend) = len + kCheapPrepend := wrap_of_lt (by omega)
  have hn := readableBytes_eq hb
  have hfree := writableBytes_eq hb
  have hr := hb.reader_le
  have hw := hb.writer_le
  rw [makeSpace, free_eq hb, hreq] at h
  split at h
  · rename_i hshort
    obtain ⟨_, h⟩ := demand_bind_eq_ok h
    cases h
    unfold Grown
    dsimp only
    rw [length_resize, wrap_of_lt hlen]
    omega
  · obtain ⟨_, h⟩ := demand_bind_eq_ok h
    obtain ⟨_, h⟩ := demand_bind_eq_ok h
    cases h
    refine .of_eq (copyAt_size ?_)
    rw [length_readable hb]
    omega

theorem ensureWritableBytes_grown (hb : Wf b) (hlen : b.writerIndex_ + len < 2 ^ 64)
    (h : b.ensureWritableBytes len = .ok b') : Grown b (b.readableBytes + len) b' := by
  obtain ⟨b₁, hspace, h⟩ := bind_eq_ok h
  obtain ⟨_, h⟩ := demand_bind_eq_ok h
  cases h
  split at hspace
  · exact makeSpace_grown hb hlen hspace
  · cases hspace
    exact .of_eq rfl

/-- The bytes are copied into space that has been made sure of. -/
theorem append_grown (hb : Wf b) {data : List UInt8}
    (hlen : b.writerIndex_ + data.length < 2 ^ 64) (h : b.append data = .ok b') :
    Grown b (b.readableBytes + data.length) b' := by
  obtain ⟨b₁, hspace, h⟩ := bind_eq_ok h
  cases h
  obtain ⟨hwf, _, hroom⟩ := (ensureWritableBytes_sat hb hlen).of_ok hspace
  have hgrown := ensureWritableBytes_grown hb hlen hspace
  have hsize : (b₁.copyAt b₁.writerIndex_ data).buffer_.length = b₁.buffer_.length := by
    have hw := hwf.writer_le
    rw [writableBytes_eq hwf] at hroom
    exact copyAt_size (by omega)
  unfold Grown at hgrown ⊢
  rw [← hsize] at hgrown
  exact hgrown

theorem retrieve_grown (h : b.retrieve len = .ok b') : Grown b n b' := by
  obtain ⟨_, h⟩ := demand_bind_eq_ok h
  cases h
  exact .of_eq rfl

theorem prepend_grown (hb : Wf b) {data : List UInt8} (h : b.prepend data = .ok b') :
    Grown b n b' := by
  obtain ⟨hroom, h⟩ := demand_bind_eq_ok h
  cases h
  have hpre : data.length ≤ b.readerIndex_ := hroom
  have hr := hb.reader_le
  have hw := hb.writer_le
  have hs := hb.size_le
  have hmax := maxSize_lt
  refine .of_eq (copyAt_size ?_)
  show wsub 64 b.readerIndex_ data.length + data.length ≤ b.buffer_.length
  rw [wsub_of_le hpre (by omega)]
  omega

theorem copied_size (hb : Wf b) (bytes : List UInt8) :
    (b.copyAt b.writerIndex_ (bytes.take b.writableBytes)).buffer_.length = b.buffer_.length := by
  have hw := hb.writer_le
  have hfree := writableBytes_eq hb
  refine copyAt_size ?_
  rw [List.length_take]
  omega

theorem filled_wf (hb : Wf b) (bytes : List UInt8) :
    Wf (b.filled bytes) ∧ (b.filled bytes).buffer_.length = b.buffer_.length := by
  have hsize := copied_size hb bytes
  have hr := hb.reader_le
  have hw := hb.writer_le
  have hmax := hb.size_le
  have hcheap := hb.cheap_le
  refine ⟨⟨?_, Nat.le_refl _, ?_, ?_⟩, hsize⟩
  · show b.readerIndex_ ≤ (b.copyAt b.writerIndex_ (bytes.take b.writableBytes)).buffer_.length
    omega
  · show (b.copyAt b.writerIndex_ (bytes.take b.writableBytes)).buffer_.length ≤ maxSize
    omega
  · show kCheapPrepend ≤ (b.copyAt b.writerIndex_ (bytes.take b.writableBytes)).buffer_.length
    omega

/-- What `readv` has put into the storage leaves its length; the rest is appended. -/
theorem readFd_grown (hb : Wf b) {bytes : List UInt8} {res : ReadFdResult}
    (hpre : Pre b (.readFd (.delivered bytes))) (h : b.readFd (.delivered bytes) = .ok (res, b')) :
    Grown b (b.demanded (.readFd (.delivered bytes))) b' := by
  have hcopied : (b.copyAt b.writerIndex_ (bytes.take b.writableBytes)).writableBytes =
      b.writableBytes := by
    show wsub 64 (b.copyAt b.writerIndex_ (bytes.take b.writableBytes)).buffer_.length _ = _
    rw [copied_size hb bytes]
    rfl
  unfold readFd at h
  dsimp only at h
  rw [hcopied] at h
  split at h
  · cases h
    exact .of_eq (copied_size hb bytes)
  · rename_i hlong
    obtain ⟨b₁, happend, h⟩ := bind_eq_ok h
    cases h
    have hdemand : b.demanded (.readFd (.delivered bytes)) =
        (b.filled bytes).readableBytes + (bytes.drop b.writableBytes).length := if_neg hlong
    obtain ⟨hwf, hsize⟩ := filled_wf hb bytes
    have hrest : (bytes.drop b.writableBytes).length ≤ kExtrabuf := by
      have hcap : bytes.length ≤ b.writableBytes + kExtrabuf := hpre
      rw [List.length_drop]
      omega
    have hextra : kExtrabuf ≤ maxSize := by decide
    have hgrown := append_grown hwf (span_end_lt hwf (hrest.trans hextra)) happend
    unfold Grown at hgrown ⊢
    rwa [hsize, ← hdemand] at hgrown

end

section

variable {c c' : Client} {op : Op}

theorem call_wf (hb : Wf c.buf) (hpre : Pre c.buf op) (hreq : Requests c.buf op)
    (h : call c op = .ok c') : Wf c'.buf := by
  have htracks : Tracks c ⟨c.buf.readable, c.outs⟩ := ⟨hb, rfl, rfl⟩
  exact ((call_sat htracks hpre hreq).of_ok h).wf

theorem call_grown (hb : Wf c.buf) (hpre : Pre c.buf op) (hreq : Requests c.buf op)
    (h : call c op = .ok c') : Grown c.buf (c.buf.demanded op) c'.buf := by
  cases op with
  | append data =>
    obtain ⟨b, hb', h⟩ := bind_eq_ok h
    cases h
    exact append_grown hb (span_end_lt hb data.fits) hb'
  | ensureWritableBytes len =>
    obtain ⟨b, hb', h⟩ := bind_eq_ok h
    cases h
    exact ensureWritableBytes_grown hb hreq hb'
  | appendInt32 x =>
    obtain ⟨b, hb', h⟩ := bind_eq_ok h
    cases h
    have hsmall : (int32Bytes x).length ≤ maxSize := by
      rw [length_int32Bytes]
      decide
    exact append_grown hb (span_end_lt hb hsmall) hb'
  | readFd r =>
    obtain ⟨⟨res, b⟩, hb', h⟩ := bind_eq_ok h
    cases h
    cases r with
    | failed errno =>
      cases hb'
      exact .of_eq rfl
    | delivered bytes => exact readFd_grown hb hpre hb'
  | hasWritten data =>
    cases h
    have hroom : data.length ≤ c.buf.writableBytes := hpre
    have hw := hb.writer_le
    rw [writableBytes_eq hb] at hroom
    exact .of_eq (copyAt_size (by omega))
  | prepend data =>
    obtain ⟨b, hb', h⟩ := bind_eq_ok h
    cases h
    exact prepend_grown hb hb'
  | retrieve len =>
    obtain ⟨b, hb', h⟩ := bind_eq_ok h
    cases h
    exact retrieve_grown hb'
  | retrieveUntil dist =>
    obtain ⟨b, hb', h⟩ := bind_eq_ok h
    cases h
    obtain ⟨_, hb'⟩ := demand_bind_eq_ok hb'
    obtain ⟨_, hb'⟩ := demand_bind_eq_ok hb'
    exact retrieve_grown hb'
  | retrieveAll =>
    cases h
    exact .of_eq rfl
  | retrieveAsString =>
    cases h
    exact .of_eq rfl
  | peekInt32 =>
    obtain ⟨x, _, h⟩ := bind_eq_ok h
    cases h
    exact .of_eq rfl
  | readInt32 =>
    obtain ⟨⟨x, b⟩, hb', h⟩ := bind_eq_ok h
    cases h
    obtain ⟨y, _, hb'⟩ := bind_eq_ok hb'
    obtain ⟨b', hretrieve, hb'⟩ := bind_eq_ok hb'
    cases hb'
    exact retrieve_grown hretrieve

theorem demanded_of_not_requests (hb : Wf c.buf) (hreq : ¬ Requests c.buf op) :
    2 ^ 63 ≤ c.buf.demanded op := by
  cases op with
  | ensureWritableBytes len =>
    have hend : 2 ^ 64 ≤ c.buf.writerIndex_ + len := Nat.le_of_not_lt hreq
    have hw := hb.writer_le
    have hs := hb.size_le
    have hmax := maxSize_lt
    show 2 ^ 63 ≤ c.buf.readableBytes + len
    omega
  | _ => exact absurd trivial hreq

/-- As long as what is demanded could fit into memory, the buffer is sound and no longer than
that makes it. -/
def Bounded (c : Client) (m : Nat) : Prop :=
  m < 2 ^ 63 → Wf c.buf ∧
    c.buf.buffer_.length ≤ max (kCheapPrepend + kInitialSize) (2 * m + kCheapPrepend - 1)

theorem bounded_start : Bounded start 0 := by
  intro _
  have hlen : start.buf.buffer_.length = kCheapPrepend + kInitialSize := List.length_replicate
  exact ⟨wf_new, by omega⟩

theorem Bounded.call {m : Nat} (h : Bounded c m) (hpre : Pre c.buf op) (hc : call c op = .ok c') :
    Bounded c' (max m (c.buf.demanded op)) := by
  intro hlt
  obtain ⟨hwf, hsize⟩ := h (by omega)
  have hreq : Requests c.buf op := by
    by_contra hreq
    have hlarge := demanded_of_not_requests hwf hreq
    omega
  have hgrown := call_grown hwf hpre hreq hc
  unfold Grown at hgrown
  exact ⟨call_wf hwf hpre hreq hc, by omega⟩

theorem run_bounded {ops : List Op} (h : Run machine start ops c) : Bounded c (peak start ops) := by
  refine h.tracks ?_ bounded_start
  intro c op c' m hb hpre hc
  exact hb.call hpre hc

/-- In every state of every run the storage is no longer than the initial one or than twice what
has been demanded at one time, the cheap prepend added. The first part also covers requests whose
end has no address. They break the buffer, and a write behind the end of the storage, which the
model lets happen, is the only way to a length that no vector has. -/
theorem storage_bounded {ops : List Op} (h : Run machine start ops c) :
    let bound := max (kCheapPrepend + kInitialSize) (2 * peak start ops + kCheapPrepend - 1)
    (c.buf.buffer_.length ≤ maxSize → c.buf.buffer_.length ≤ bound) ∧
      (Run honest start ops c → c.buf.buffer_.length ≤ bound) := by
  intro bound
  have hvector : c.buf.buffer_.length ≤ maxSize → c.buf.buffer_.length ≤ bound := by
    intro hmax
    by_cases hsmall : peak start ops < 2 ^ 63
    · exact (run_bounded h hsmall).2
    · have hlimit := maxSize_lt
      omega
  exact ⟨hvector, fun hr => hvector (honest_wf ⟨ops, hr⟩).size_le⟩

end

/-- For the first request the storage grows, and for the second one, with nothing readable any more,
the bytes are moved. -/
theorem storage_bounded_run :
    let ops : List Op := [.append ⟨[1, 2, 3], by decide⟩, .retrieve 2, .ensureWritableBytes 1024,
      .retrieve 1, .ensureWritableBytes 1025]
    ∃ c, Run machine start ops c ∧ peak start ops = 1025 ∧ c.buf.buffer_.length ≤ 2057 := by
  intro ops
  have hex : ∃ c, Run honest start ops c ∧ peak start ops = 1025 :=
    exists_run_of_exec (fun _ => peak start ops = 1025) (by decide +kernel)
  obtain ⟨c, hr, hpeak⟩ := hex
  have hbound := (storage_bounded hr.of_restrict).2 hr
  rw [hpeak] at hbound
  exact ⟨c, hr.of_restrict, hpeak, hbound⟩

end MuduoNet.Buffer
