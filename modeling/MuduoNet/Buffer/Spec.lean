import MuduoNet.Buffer.Basic
import Mathlib.Tactic.Linarith

/-!
# What each function of `Buffer` does to the readable bytes

`Wf` is the index invariant. Every function called within its precondition keeps it and
changes the readable bytes in one place; the only fault left is `std::length_error`, and
only when twice the bytes asked for exceed `maxSize`.
-/
namespace MuduoNet.Buffer

open Lib.Outcome Lib.Splice Lib.Words

structure Wf (b : Buffer) : Prop where
  reader_le : b.readerIndex_ ≤ b.writerIndex_
  writer_le : b.writerIndex_ ≤ b.buffer_.length
  size_le : b.buffer_.length ≤ maxSize
  cheap_le : kCheapPrepend ≤ b.writerIndex_

/-- The storage cannot hold `n` readable bytes in the worst layout. -/
def Exhausted (n : Nat) (f : Fault) : Prop :=
  f = .lengthError ∧ maxSize < 2 * n + kCheapPrepend - 1

theorem maxSize_lt : maxSize < 2 ^ 63 := by decide

theorem not_exhausted {n : Nat} (h : 2 * n + kCheapPrepend ≤ maxSize + 1) (f : Fault) :
    ¬ Exhausted n f := by
  rintro ⟨_, hlt⟩
  omega

theorem Exhausted.mono {m n : Nat} (hmn : m ≤ n) {f : Fault} (h : Exhausted m f) :
    Exhausted n f := by
  obtain ⟨hf, hlt⟩ := h
  exact ⟨hf, by omega⟩

theorem wf_new : Wf new := by
  have hlen : new.buffer_.length = kCheapPrepend + kInitialSize := List.length_replicate
  refine ⟨Nat.le_refl _, ?_, ?_, Nat.le_refl _⟩
  · rw [hlen]
    decide
  · rw [hlen]
    decide

@[simp] theorem readable_new : new.readable = [] := window_self _ _

section Sizes

variable {b : Buffer} (hb : Wf b)
include hb

theorem readableBytes_eq : b.readableBytes = b.writerIndex_ - b.readerIndex_ := by
  have hw := hb.writer_le
  have hs := hb.size_le
  have hmax := maxSize_lt
  exact wsub_of_le hb.reader_le (by omega)

theorem writableBytes_eq : b.writableBytes = b.buffer_.length - b.writerIndex_ := by
  have hs := hb.size_le
  have hmax := maxSize_lt
  exact wsub_of_le hb.writer_le (by omega)

theorem length_readable : b.readable.length = b.readableBytes := by
  rw [readableBytes_eq hb, readable, length_window_of_le hb.writer_le]

end Sizes

/-- Dropping from the front is all that `retrieve` does. -/
theorem retrieve_sat {b : Buffer} (hb : Wf b) {len : Nat} (hlen : len ≤ b.readable.length) :
    Sat Nothing (b.retrieve len) (fun b' => Wf b' ∧ b'.readable = b.readable.drop len) := by
  have hl := hlen
  rw [length_readable hb] at hl
  have hn := readableBytes_eq hb
  obtain ⟨hr, hw, hs, hc⟩ := hb
  have hmax := maxSize_lt
  refine sat_demand hl ?_
  have hwrap : wrap 64 (b.readerIndex_ + len) = b.readerIndex_ + len := wrap_of_lt (by omega)
  rw [hwrap]
  refine ⟨⟨?_, hw, hs, hc⟩, ?_⟩
  · change b.readerIndex_ + len ≤ b.writerIndex_
    omega
  · exact (drop_window _ _ _ _).symm

theorem retrieveUntil_sat {b : Buffer} (hb : Wf b) {stop : Nat} (hlo : b.readerIndex_ ≤ stop)
    (hhi : stop ≤ b.writerIndex_) :
    Sat Nothing (b.retrieveUntil stop)
      (fun b' => Wf b' ∧ b'.readable = b.readable.drop (stop - b.readerIndex_)) := by
  have hmax := maxSize_lt
  have hw := hb.writer_le
  have hs := hb.size_le
  have hsub : wsub 64 stop b.readerIndex_ = stop - b.readerIndex_ := wsub_of_le hlo (by omega)
  refine sat_demand hlo (sat_demand hhi ?_)
  rw [hsub]
  refine retrieve_sat hb ?_
  rw [length_readable hb, readableBytes_eq hb]
  omega

theorem retrieveAll_wf {b : Buffer} (hb : Wf b) : Wf b.retrieveAll := by
  obtain ⟨_, hw, hs, hc⟩ := hb
  exact ⟨Nat.le_refl _, Nat.le_trans hc hw, hs, Nat.le_refl _⟩

@[simp] theorem readable_retrieveAll (b : Buffer) : b.retrieveAll.readable = [] := window_self _ _

/-- The growing branch: the storage ends `len` bytes behind the write index. -/
theorem resizeTo_sat {b : Buffer} (hb : Wf b) {len : Nat} (hw : b.writableBytes < len)
    (hlen : b.writerIndex_ + len < 2 ^ 64)
    (hgrow : b.writableBytes + b.readerIndex_ < len + kCheapPrepend) :
    Sat (Exhausted (b.readable.length + len)) (b.resizeTo (wrap 64 (b.writerIndex_ + len)))
      (fun b' => Wf b' ∧ b'.readable = b.readable ∧ len ≤ b'.writableBytes) := by
  have hn := length_readable hb
  rw [readableBytes_eq hb] at hn
  rw [writableBytes_eq hb] at hw hgrow
  obtain ⟨hr, hwl, _, hc⟩ := hb
  rw [wrap_of_lt hlen]
  by_cases hfit : b.writerIndex_ + len ≤ maxSize
  · refine sat_demand hfit ?_
    have hwf : Wf { b with buffer_ := resize 0 b.buffer_ (b.writerIndex_ + len) } := by
      refine ⟨hr, ?_, ?_, hc⟩
      · rw [length_resize]
        exact Nat.le_add_right _ _
      · rw [length_resize]
        exact hfit
    refine ⟨hwf, window_resize hwl (Nat.le_add_right _ _), ?_⟩
    rw [writableBytes_eq hwf]
    change len ≤ (resize 0 b.buffer_ (b.writerIndex_ + len)).length - b.writerIndex_
    rw [length_resize]
    omega
  · rw [resizeTo, demand_false hfit]
    refine ⟨rfl, ?_⟩
    omega

/-- Compaction keeps the readable bytes and leaves everything else writable. -/
theorem compact_spec {b : Buffer} (hb : Wf b) (hcheap : kCheapPrepend ≤ b.readerIndex_) :
    Wf b.compact ∧ b.compact.readable = b.readable ∧ b.compact.readableBytes = b.readableBytes ∧
      b.compact.writableBytes = b.buffer_.length - kCheapPrepend - b.readable.length := by
  have hn := length_readable hb
  have hnb := readableBytes_eq hb
  obtain ⟨hr, hwl, hs, _⟩ := hb
  have hmax := maxSize_lt
  have hfit : kCheapPrepend + b.readable.length ≤ b.buffer_.length := by omega
  have hsize : b.compact.buffer_.length = b.buffer_.length := length_overwrite hfit
  have hidx : b.compact.writerIndex_ = kCheapPrepend + b.readable.length := by
    rw [hn]
    exact wrap_of_lt (by omega)
  have hwf : Wf b.compact := by
    constructor
    · rw [hidx]
      exact Nat.le_add_right _ _
    · rw [hidx, hsize]
      exact hfit
    · rw [hsize]
      exact hs
    · rw [hidx]
      exact Nat.le_add_right _ _
  have hread : b.compact.readable = b.readable := by
    rw [readable, hidx]
    exact window_overwrite_self hfit
  refine ⟨hwf, hread, ?_, ?_⟩
  · rw [← length_readable hwf, hread, hn]
  · rw [writableBytes_eq hwf, hsize, hidx, Nat.sub_sub]

/-- The assertion `kCheapPrepend < readerIndex_` follows from the test that selects the
compacting branch: what is writable alone does not suffice. -/
theorem compact_room {b : Buffer} (hb : Wf b) {len : Nat} (hw : b.writableBytes < len)
    (hroom : len + kCheapPrepend ≤ b.writableBytes + b.readerIndex_) :
    kCheapPrepend < b.readerIndex_ ∧ len ≤ b.compact.writableBytes := by
  have hcheap : kCheapPrepend < b.readerIndex_ := by omega
  obtain ⟨_, _, _, hfree⟩ := compact_spec hb (Nat.le_of_lt hcheap)
  have hn := length_readable hb
  rw [readableBytes_eq hb] at hn
  rw [writableBytes_eq hb] at hw hroom
  have hr := hb.reader_le
  have hwl := hb.writer_le
  exact ⟨hcheap, by omega⟩

/-- The left side of the test in `makeSpace` never wraps. -/
theorem free_eq {b : Buffer} (hb : Wf b) :
    wrap 64 (b.writableBytes + b.prependableBytes) = b.writableBytes + b.readerIndex_ := by
  have hwb := writableBytes_eq hb
  have hr := hb.reader_le
  have hwl := hb.writer_le
  have hs := hb.size_le
  have hmax := maxSize_lt
  exact wrap_of_lt (by rw [hwb, prependableBytes]; omega)

/-- `makeSpace` never trips its assertions and always makes the room, as long as the end of
the requested space has an address. -/
theorem makeSpace_sat {b : Buffer} (hb : Wf b) {len : Nat} (hw : b.writableBytes < len)
    (hlen : b.writerIndex_ + len < 2 ^ 64) :
    Sat (Exhausted (b.readable.length + len)) (b.makeSpace len)
      (fun b' => Wf b' ∧ b'.readable = b.readable ∧ len ≤ b'.writableBytes) := by
  have hreq : wrap 64 (len + kCheapPrepend) = len + kCheapPrepend := by
    have hc := hb.cheap_le
    exact wrap_of_lt (by omega)
  rw [makeSpace, free_eq hb, hreq]
  by_cases hgrow : b.writableBytes + b.readerIndex_ < len + kCheapPrepend
  · rw [if_pos hgrow]
    exact resizeTo_sat hb hw hlen hgrow
  · rw [if_neg hgrow]
    obtain ⟨hcheap, hroom⟩ := compact_room hb hw (by omega)
    obtain ⟨hwf, hread, hcount, _⟩ := compact_spec hb (Nat.le_of_lt hcheap)
    exact sat_demand hcheap (sat_demand hcount ⟨hwf, hread, hroom⟩)

theorem ensureWritableBytes_sat {b : Buffer} (hb : Wf b) {len : Nat}
    (hlen : b.writerIndex_ + len < 2 ^ 64) :
    Sat (Exhausted (b.readable.length + len)) (b.ensureWritableBytes len)
      (fun b' => Wf b' ∧ b'.readable = b.readable ∧ len ≤ b'.writableBytes) := by
  refine sat_bind (P := fun b' => Wf b' ∧ b'.readable = b.readable ∧ len ≤ b'.writableBytes) ?_ ?_
  · by_cases hw : b.writableBytes < len
    · rw [if_pos hw]
      exact makeSpace_sat hb hw hlen
    · rw [if_neg hw]
      exact ⟨hb, rfl, by omega⟩
  · intro b' h
    exact sat_demand h.2.2 h

/-- A request whose end has no address is not met: an assertion fails, or the storage is cut
below the write index. -/
theorem ensureWritableBytes_wraps {b : Buffer} (hb : Wf b) {len : Nat} (hsz : len < 2 ^ 64)
    (hlen : 2 ^ 64 ≤ b.writerIndex_ + len) :
    b.ensureWritableBytes len = .error .assertion ∨
      ∃ b', b.ensureWritableBytes len = .ok b' ∧ ¬ Wf b' := by
  have hwb := writableBytes_eq hb
  have hn := length_readable hb
  have hmax := maxSize_lt
  have hwl := hb.writer_le
  have hs := hb.size_le
  have hw : b.writableBytes < len := by omega
  have hend : wrap 64 (b.writerIndex_ + len) = b.writerIndex_ + len - 2 ^ 64 := by
    have h : b.writerIndex_ + len = b.writerIndex_ + len - 2 ^ 64 + 2 ^ 64 := by omega
    rw [wrap, h, Nat.add_mod_right, Nat.mod_eq_of_lt (by omega)]
    omega
  rw [ensureWritableBytes, if_pos hw, makeSpace, free_eq hb, hend]
  by_cases hgrow : b.writableBytes + b.readerIndex_ < wrap 64 (len + kCheapPrepend)
  · -- `resize` shrinks the storage, and `writableBytes()` wraps back to exactly `len`
    right
    have hfit : b.writerIndex_ + len - 2 ^ 64 ≤ maxSize := by omega
    let b' : Buffer := { b with buffer_ := resize 0 b.buffer_ (b.writerIndex_ + len - 2 ^ 64) }
    have hsize : b'.buffer_.length = b.writerIndex_ + len - 2 ^ 64 := length_resize _ _ _
    have hroom : b'.writableBytes = len := by
      rw [writableBytes, hsize]
      change wsub 64 (b.writerIndex_ + len - 2 ^ 64) b.writerIndex_ = len
      rw [wsub, Nat.mod_eq_of_lt (by omega), Nat.mod_eq_of_lt (by omega)]
      omega
    refine ⟨b', ?_, ?_⟩
    · rw [if_pos hgrow, resizeTo, demand_true hfit]
      change (assert (len ≤ b'.writableBytes) >>= fun _ => pure b') = .ok b'
      rw [assert, demand_true (Nat.le_of_eq hroom.symm)]
      rfl
    · intro hwf
      have hle : b.writerIndex_ ≤ b'.buffer_.length := hwf.writer_le
      omega
  · left
    rw [if_neg hgrow]
    by_cases hcheap : kCheapPrepend < b.readerIndex_
    · obtain ⟨_, _, hcount, hfree⟩ := compact_spec hb (Nat.le_of_lt hcheap)
      have hshort : ¬ len ≤ b.compact.writableBytes := by omega
      rw [assert, demand_true hcheap, ok_bind, assert, demand_true hcount]
      change (assert (len ≤ b.compact.writableBytes) >>= fun _ => pure b.compact) = _
      rw [assert, demand_false hshort]
      rfl
    · rw [assert, demand_false hcheap]
      rfl

/-- Making room never lowers the read index below `kCheapPrepend`. -/
theorem ensureWritableBytes_reader {b b' : Buffer} {len : Nat}
    (h : b.ensureWritableBytes len = .ok b') (hcheap : kCheapPrepend ≤ b.readerIndex_) :
    kCheapPrepend ≤ b'.readerIndex_ := by
  obtain ⟨b₁, hmake, hrest⟩ := bind_eq_ok h
  obtain ⟨_, hok⟩ := demand_bind_eq_ok hrest
  obtain rfl := Except.ok.inj hok
  split at hmake
  · unfold makeSpace at hmake
    split at hmake
    · obtain ⟨_, hresize⟩ := demand_bind_eq_ok hmake
      obtain rfl := Except.ok.inj hresize
      exact hcheap
    · obtain ⟨_, hmake⟩ := demand_bind_eq_ok hmake
      obtain ⟨_, hmake⟩ := demand_bind_eq_ok hmake
      obtain rfl := Except.ok.inj hmake
      exact Nat.le_refl _
  · obtain rfl := Except.ok.inj hmake
    exact hcheap

/-- Bytes written at `beginWrite()` and announced by `hasWritten` join the readable ones. -/
theorem hasWritten_spec {b : Buffer} (hb : Wf b) {data : List UInt8}
    (hroom : data.length ≤ b.writableBytes) :
    Wf ((b.copyAt b.writerIndex_ data).hasWritten data.length) ∧
      ((b.copyAt b.writerIndex_ data).hasWritten data.length).readable = b.readable ++ data := by
  rw [writableBytes_eq hb] at hroom
  obtain ⟨hr, hw, hs, hc⟩ := hb
  have hmax := maxSize_lt
  have hfit : b.writerIndex_ + data.length ≤ b.buffer_.length := by omega
  have hwrap : wrap 64 (b.writerIndex_ + data.length) = b.writerIndex_ + data.length :=
    wrap_of_lt (by omega)
  have hsize : (overwrite b.buffer_ b.writerIndex_ data).length = b.buffer_.length :=
    length_overwrite hfit
  rw [hasWritten]
  simp only [copyAt, hwrap]
  refine ⟨⟨?_, ?_, ?_, ?_⟩, window_overwrite_end hr hfit⟩
  · exact Nat.le_trans hr (Nat.le_add_right _ _)
  · rw [hsize]
    exact hfit
  · rw [hsize]
    exact hs
  · exact Nat.le_trans hc (Nat.le_add_right _ _)

theorem append_sat {b : Buffer} (hb : Wf b) {data : List UInt8}
    (hlen : b.writerIndex_ + data.length < 2 ^ 64) :
    Sat (Exhausted (b.readable.length + data.length)) (b.append data)
      (fun b' => Wf b' ∧ b'.readable = b.readable ++ data) := by
  refine sat_bind (ensureWritableBytes_sat hb hlen) ?_
  rintro b' ⟨hb', hread, hroom⟩
  obtain ⟨hwf, hdata⟩ := hasWritten_spec hb' hroom
  exact ⟨hwf, by rw [hdata, hread]⟩

/-- The end of an object appended to a well-formed buffer always has an address. -/
theorem span_end_lt {b : Buffer} (hb : Wf b) {n : Nat} (hn : n ≤ maxSize) :
    b.writerIndex_ + n < 2 ^ 64 := by
  have hw := hb.writer_le
  have hs := hb.size_le
  have hmax := maxSize_lt
  omega

theorem append_span_sat {b : Buffer} (hb : Wf b) (data : Span) :
    Sat (Exhausted (b.readable.length + data.bytes.length)) (b.append data.bytes)
      (fun b' => Wf b' ∧ b'.readable = b.readable ++ data.bytes) :=
  append_sat hb (span_end_lt hb data.fits)

theorem prepend_sat {b : Buffer} (hb : Wf b) {data : List UInt8}
    (hroom : data.length ≤ b.prependableBytes) :
    Sat Nothing (b.prepend data) (fun b' => Wf b' ∧ b'.readable = data ++ b.readable) := by
  have hroom' : data.length ≤ b.readerIndex_ := hroom
  obtain ⟨hr, hw, hs, hc⟩ := hb
  have hmax := maxSize_lt
  have hsub : wsub 64 b.readerIndex_ data.length = b.readerIndex_ - data.length :=
    wsub_of_le hroom' (by omega)
  have hfit : b.readerIndex_ - data.length + data.length ≤ b.buffer_.length := by omega
  have hsize : (overwrite b.buffer_ (b.readerIndex_ - data.length) data).length = b.buffer_.length :=
    length_overwrite hfit
  refine sat_demand hroom ?_
  simp only [copyAt, hsub]
  refine ⟨⟨?_, ?_, ?_, hc⟩, ?_⟩
  · exact Nat.le_trans (Nat.sub_le _ _) hr
  · rw [hsize]
    exact hw
  · rw [hsize]
    exact hs
  · have hback : b.readerIndex_ - data.length + data.length = b.readerIndex_ := by omega
    have hlo : b.readerIndex_ - data.length + data.length ≤ b.writerIndex_ := by omega
    have hfront := window_overwrite_front hlo hw
    rw [hback] at hfront
    exact hfront

@[simp] theorem length_int32Bytes (x : Int) : (int32Bytes x).length = 4 := length_toBE _ _

/-- An `int32_t` survives the trip through its bytes. -/
theorem int32Of_int32Bytes (x : Int) : int32Of (int32Bytes (signed 32 x)) = signed 32 x := by
  have hlt : unsigned 32 (signed 32 x) < 256 ^ 4 := unsigned_lt 32 _
  rw [int32Of, int32Bytes, ofBE_toBE, Nat.mod_eq_of_lt hlt, unsigned_signed, signed_unsigned]

/-- Four bytes in memory are determined by the `int32_t` they make. -/
theorem int32Of_inj {bs cs : List UInt8} (hb : bs.length = 4) (hc : cs.length = 4) :
    int32Of bs = int32Of cs ↔ bs = cs := by
  have hlb : ofBE bs < 2 ^ 32 := by
    have h := ofBE_lt bs
    rwa [hb] at h
  have hlc : ofBE cs < 2 ^ 32 := by
    have h := ofBE_lt cs
    rwa [hc] at h
  rw [int32Of, int32Of, signed_inj hlb hlc]
  exact ⟨ofBE_inj (hb.trans hc.symm), congrArg ofBE⟩

theorem peekInt32_sat {b : Buffer} (hb : Wf b) (h : 4 ≤ b.readable.length) :
    Sat Nothing b.peekInt32 (fun x => x = int32Of (b.readable.take 4)) := by
  rw [length_readable hb] at h
  exact sat_demand h rfl

theorem appendInt32_sat {b : Buffer} (hb : Wf b) (x : Int) :
    Sat (Exhausted (b.readable.length + 4)) (b.appendInt32 x)
      (fun b' => Wf b' ∧ b'.readable = b.readable ++ int32Bytes x) := by
  have hsmall : (int32Bytes x).length ≤ maxSize := by rw [length_int32Bytes]; decide
  have h := append_sat hb (span_end_lt hb hsmall)
  rwa [length_int32Bytes] at h

theorem readInt32_sat {b : Buffer} (hb : Wf b) (h : 4 ≤ b.readable.length) :
    Sat Nothing b.readInt32
      (fun r => r.1 = int32Of (b.readable.take 4) ∧ Wf r.2 ∧ r.2.readable = b.readable.drop 4) := by
  refine sat_bind (peekInt32_sat hb h) ?_
  rintro x rfl
  refine sat_bind (retrieve_sat hb h) ?_
  rintro b' ⟨hwf, hread⟩
  exact ⟨rfl, hwf, hread⟩

/-- The count that `readFd` returns is that of `readv`. -/
theorem readFd_n {b b' : Buffer} {r : ReadvResult} {res : ReadFdResult}
    (h : b.readFd r = .ok (res, b')) :
    res.n = match r with | .failed _ => -1 | .delivered bytes => (bytes.length : Int) := by
  cases r with
  | failed errno =>
    cases h
    rfl
  | delivered bytes =>
    rw [readFd] at h
    dsimp only at h
    split at h
    · cases h
      rfl
    · obtain ⟨_, _, h⟩ := bind_eq_ok h
      cases h
      rfl

/-- One `readv` into the tail of the storage and the stack area reads as one append. -/
theorem readFd_delivered_sat {b : Buffer} (hb : Wf b) {bytes : List UInt8}
    (hcap : bytes.length ≤ b.writableBytes + kExtrabuf) :
    Sat (Exhausted (b.readable.length + bytes.length)) (b.readFd (.delivered bytes))
      (fun r => r.1 = ⟨bytes.length, none⟩ ∧ Wf r.2 ∧ r.2.readable = b.readable ++ bytes) := by
  have hwb := writableBytes_eq hb
  have hmax := maxSize_lt
  have hsize : ((b.copyAt b.writerIndex_ (bytes.take b.writableBytes)).buffer_).length =
      b.buffer_.length := by
    refine length_overwrite ?_
    have := hb.writer_le
    rw [List.length_take]
    omega
  have hroom : (b.copyAt b.writerIndex_ (bytes.take b.writableBytes)).writableBytes =
      b.writableBytes := by
    unfold writableBytes at hsize ⊢
    rw [hsize]
    rfl
  rw [readFd]
  simp only [hroom]
  by_cases hfit : bytes.length ≤ b.writableBytes
  · rw [if_pos hfit, List.take_of_length_le hfit]
    obtain ⟨hwf, hread⟩ := hasWritten_spec hb hfit
    exact ⟨rfl, hwf, hread⟩
  · rw [if_neg hfit]
    -- the tail is full: `writerIndex_ = buffer_.size()` is what `hasWritten` would set
    have htake : (bytes.take b.writableBytes).length = b.writableBytes := by
      rw [List.length_take]
      omega
    have hleft : (bytes.take b.writableBytes).length ≤ b.writableBytes := by omega
    obtain ⟨hwf, hread⟩ := hasWritten_spec hb hleft
    have hfull : ((b.copyAt b.writerIndex_ (bytes.take b.writableBytes)).hasWritten
        (bytes.take b.writableBytes).length) =
        { b.copyAt b.writerIndex_ (bytes.take b.writableBytes) with
          writerIndex_ := (b.copyAt b.writerIndex_ (bytes.take b.writableBytes)).buffer_.length } := by
      have hw := hb.writer_le
      have hs := hb.size_le
      have hidx : wrap 64 (b.writerIndex_ + b.writableBytes) = b.buffer_.length := by
        rw [wrap_of_lt (by omega)]
        omega
      rw [hasWritten, htake, hsize]
      exact congrArg (fun w => { b.copyAt b.writerIndex_ (bytes.take b.writableBytes) with
        writerIndex_ := w }) hidx
    rw [hfull] at hwf hread
    have hdrop : (bytes.drop b.writableBytes).length ≤ kExtrabuf := by
      rw [List.length_drop]
      omega
    have hext : kExtrabuf ≤ maxSize := by decide
    have happ := append_sat hwf (span_end_lt hwf (Nat.le_trans hdrop hext))
    refine sat_bind (sat_mono happ (fun f hf => ?_) (fun _ h => h)) ?_
    · refine hf.mono ?_
      rw [hread, List.length_append, htake, List.length_drop]
      omega
    · rintro b' ⟨hwf', hread'⟩
      refine ⟨rfl, hwf', ?_⟩
      rw [hread', hread, List.append_assoc, List.take_append_drop]

end MuduoNet.Buffer
