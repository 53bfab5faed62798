import MuduoNet.Buffer.Refine

/-!
# `shrink`

The readable bytes go to `kCheapPrepend` in the new storage, and the indices stay where they
were. What the buffer shows then is right only if the bytes were at `kCheapPrepend` before, or
cannot be told from the zeros in front of them.
-/
namespace MuduoNet.Buffer

open Lib Lib.Outcome Lib.Splice Lib.Words

/-- `b'` can stand for `b`, with `reverse` bytes of free space. -/
structure Shrunk (b : Buffer) (reverse : Nat) (b' : Buffer) : Prop where
  readable : b'.readable = b.readable
  writable : reverse ≤ b'.writableBytes
  reader_le : b'.readerIndex_ ≤ b'.writerIndex_
  writer_le : b'.writerIndex_ ≤ b'.buffer_.length
  /-- Whatever is called next, the queue of the bytes of `b` is followed. -/
  further : ∀ outs ops c, Run honest ⟨b', outs⟩ ops c →
    Tracks c (ops.foldl Queue.next ⟨b.readable, outs⟩)

/-- The readable bytes are where `shrink` puts them, or the zeros before them look the same. -/
def InPlace (b : Buffer) : Prop :=
  b.readerIndex_ = kCheapPrepend ∨ b.readerIndex_ < kCheapPrepend ∧ ∀ x ∈ b.readable, x = 0

/-- If there can be a storage of the computed size, that size has not wrapped, and the bytes are in
place. -/
def CanShrink (b : Buffer) (reverse : Nat) : Prop :=
  b.shrunkSize reverse ≤ maxSize →
    kCheapPrepend + b.readableBytes + reverse < 2 ^ 64 ∧ b.InPlace

section

variable {b b' : Buffer} {reverse : Nat}

theorem shrunkSize_eq (hfit : kCheapPrepend + b.readableBytes + reverse < 2 ^ 64) :
    b.shrunkSize reverse = kCheapPrepend + b.readableBytes + reverse := by
  have hsmall : kCheapPrepend + b.readableBytes < 2 ^ 64 := by omega
  unfold shrunkSize
  rw [wrap_of_lt hsmall, wrap_of_lt hfit]

/-- A size that wraps leaves no room for the readable bytes. -/
theorem shrunkSize_lt (hb : Wf b) (hreverse : reverse < 2 ^ 64)
    (hwrap : 2 ^ 64 ≤ kCheapPrepend + b.readableBytes + reverse) :
    b.shrunkSize reverse < kCheapPrepend + b.readable.length := by
  have hn := length_readable hb
  have hle := readableBytes_eq hb
  have hw := hb.writer_le
  have hs := hb.size_le
  have hmax := maxSize_lt
  have hcheap : kCheapPrepend = 8 := rfl
  have hsmall : kCheapPrepend + b.readableBytes < 2 ^ 64 := by omega
  unfold shrunkSize
  rw [wrap_of_lt hsmall, wrap, Nat.mod_eq_sub_mod hwrap, Nat.mod_eq_of_lt (by omega)]
  omega

/-- The new buffer, if there is room for the readable bytes. -/
theorem shrink_eq (hsize : b.shrunkSize reverse ≤ maxSize)
    (hroom : kCheapPrepend + b.readable.length ≤ b.shrunkSize reverse) :
    b.shrink reverse = .ok { b with
      buffer_ := overwrite (List.replicate (b.shrunkSize reverse) 0) kCheapPrepend b.readable } := by
  unfold shrink
  dsimp only
  rw [demand_true hsize, ok_bind, demand_true hroom]
  rfl

theorem shrink_too_large (hsize : ¬ b.shrunkSize reverse ≤ maxSize) :
    b.shrink reverse = .error .lengthError := by
  unfold shrink
  dsimp only
  rw [demand_false hsize]
  rfl

theorem shrink_no_room (hsize : b.shrunkSize reverse ≤ maxSize)
    (hroom : ¬ kCheapPrepend + b.readable.length ≤ b.shrunkSize reverse) :
    b.shrink reverse = .error .outOfBounds := by
  unfold shrink
  dsimp only
  rw [demand_true hsize, ok_bind, demand_false hroom]
  rfl

/-- What shows between indices in front of the place where the bytes are. -/
theorem window_before {mem : List UInt8} {r w : Nat} {bytes : List UInt8} {size : Nat}
    (hmem : mem = overwrite (List.replicate size 0) kCheapPrepend bytes)
    (hroom : kCheapPrepend + bytes.length ≤ size) (hr : r ≤ kCheapPrepend) (hw : kCheapPrepend ≤ w)
    (hlen : bytes.length = w - r) :
    window r w mem =
      List.replicate (kCheapPrepend - r) 0 ++ bytes.take (bytes.length - (kCheapPrepend - r)) := by
  have hroom' : kCheapPrepend + bytes.length ≤ (List.replicate size (0 : UInt8)).length := by
    rwa [List.length_replicate]
  rw [hmem, ← window_append hr hw, window_overwrite_below (Nat.le_refl _) hroom']
  congr 1
  · rw [window, List.take_replicate, List.drop_replicate]
    congr 1
    omega
  · have hself := window_overwrite_self hroom'
    have htake : (window kCheapPrepend (kCheapPrepend + bytes.length)
        (overwrite (List.replicate size 0) kCheapPrepend bytes)).take
          (bytes.length - (kCheapPrepend - r)) =
        window kCheapPrepend w (overwrite (List.replicate size 0) kCheapPrepend bytes) := by
      rw [take_window]
      congr 1
      omega
    rw [← htake, hself]

/-- A sound buffer with the same bytes follows the same queue. -/
theorem further_of_wf (hb : Wf b') (hreadable : b'.readable = b.readable) (outs : List Out)
    (ops : List Op) (c : Client) (h : Run honest ⟨b', outs⟩ ops c) :
    Tracks c (ops.foldl Queue.next ⟨b.readable, outs⟩) := by
  refine Run.simulates (M := honest) (R := Tracks) ?_ h ⟨hb, hreadable, rfl⟩
  intro c op c' q ht he hs
  exact (call_sat ht he.1 he.2).of_ok hs

/-- The shrunk buffer stands for the old one exactly if the bytes were in place. -/
theorem shrunk_iff (hb : Wf b) (hfit : kCheapPrepend + b.readableBytes + reverse < 2 ^ 64)
    (hsize : b.shrunkSize reverse ≤ maxSize)
    (hb' : b' = { b with
      buffer_ := overwrite (List.replicate (b.shrunkSize reverse) 0) kCheapPrepend b.readable }) :
    Shrunk b reverse b' ↔ b.InPlace := by
  have hn := length_readable hb
  have hbytes := readableBytes_eq hb
  have hreader := hb.reader_le
  have hcheap := hb.cheap_le
  have hmax := maxSize_lt
  rw [shrunkSize_eq hfit] at hsize
  have hroom : kCheapPrepend + b.readable.length ≤ b.shrunkSize reverse := by
    rw [shrunkSize_eq hfit]
    omega
  have hlength : b'.buffer_.length = kCheapPrepend + b.readableBytes + reverse := by
    rw [hb', length_overwrite (by rwa [List.length_replicate]), List.length_replicate,
      shrunkSize_eq hfit]
  have hr : b'.readerIndex_ = b.readerIndex_ := by rw [hb']
  have hw : b'.writerIndex_ = b.writerIndex_ := by rw [hb']
  have hbefore : b.readerIndex_ ≤ kCheapPrepend → b'.readable =
      List.replicate (kCheapPrepend - b.readerIndex_) 0 ++
        b.readable.take (b.readable.length - (kCheapPrepend - b.readerIndex_)) := by
    intro hle
    have hmem : b'.buffer_ =
        overwrite (List.replicate (b.shrunkSize reverse) 0) kCheapPrepend b.readable := by rw [hb']
    rw [← window_before hmem hroom hle hcheap (by omega), ← hr, ← hw]
    rfl
  have hshift : b.readerIndex_ < kCheapPrepend →
      (List.replicate (kCheapPrepend - b.readerIndex_) 0 ++
        b.readable.take (b.readable.length - (kCheapPrepend - b.readerIndex_)) = b.readable ↔
        ∀ x ∈ b.readable, x = 0) :=
    fun hlt => replicate_append_take_eq_iff (by omega) (by omega)
  constructor
  · intro h
    -- a reader index behind `kCheapPrepend` takes its distance from the free space
    have hle : b.readerIndex_ ≤ kCheapPrepend := by
      have hwritable := h.writable
      have hfits := h.writer_le
      rw [hlength, hw] at hfits
      rw [writableBytes, hlength, hw, wsub_of_le hfits (by omega)] at hwritable
      omega
    rcases Nat.eq_or_lt_of_le hle with heq | hlt
    · exact .inl heq
    · refine .inr ⟨hlt, ?_⟩
      apply (hshift hlt).mp
      rw [← hbefore hle, h.readable]
  · intro hplace
    have hle : b.readerIndex_ ≤ kCheapPrepend := hplace.elim (·.le) (·.1.le)
    have hreadable : b'.readable = b.readable := by
      rcases hplace with heq | ⟨hlt, hzero⟩
      · rw [hbefore hle, heq]
        simp
      · rw [hbefore hle]
        exact (hshift hlt).mpr hzero
    have hwf : Wf b' := by
      constructor
      · omega
      · omega
      · omega
      · omega
    refine ⟨hreadable, ?_, hwf.reader_le, hwf.writer_le, further_of_wf hwf hreadable⟩
    rw [writableBytes_eq hwf, hlength, hw]
    omega

/-- In every run of a buffer, `shrink` leaves one that can stand for the old one, or throws, if and
only if the bytes are in place and the size has not wrapped. -/
theorem shrink_preserves_iff {ops : List Op} {c : Client} (h : Run honest start ops c)
    (hreverse : reverse < 2 ^ 64) :
    Sat (· = .lengthError) (c.buf.shrink reverse) (Shrunk c.buf reverse) ↔
      c.buf.CanShrink reverse := by
  have hb : Wf c.buf := honest_wf ⟨ops, h⟩
  by_cases hsize : c.buf.shrunkSize reverse ≤ maxSize
  · by_cases hfit : kCheapPrepend + c.buf.readableBytes + reverse < 2 ^ 64
    · have hroom : kCheapPrepend + c.buf.readable.length ≤ c.buf.shrunkSize reverse := by
        rw [shrunkSize_eq hfit, length_readable hb]
        omega
      rw [shrink_eq hsize hroom, sat_ok, shrunk_iff hb hfit hsize rfl]
      exact ⟨fun hplace _ => ⟨hfit, hplace⟩, fun hcan => (hcan hsize).2⟩
    · have hroom := shrunkSize_lt hb hreverse (Nat.le_of_not_lt hfit)
      rw [shrink_no_room hsize (Nat.not_le.mpr hroom)]
      refine iff_of_false ?_ (fun hcan => hfit (hcan hsize).1)
      intro hbad
      cases hbad
  · rw [shrink_too_large hsize]
    exact iff_of_true rfl (fun hle => absurd hle hsize)

end

/-- A buffer of which nothing has been consumed since it was empty. -/
theorem shrink_preserves_iff_fresh : ∃ c, Run honest start [.append ⟨[1, 2, 3], by decide⟩] c ∧
    Sat (· = .lengthError) (c.buf.shrink 5) (Shrunk c.buf 5) := by
  have hex : ∃ c, Run honest start [.append ⟨[1, 2, 3], by decide⟩] c ∧
      (c.buf.readerIndex_ = kCheapPrepend ∧ kCheapPrepend + c.buf.readableBytes + 5 < 2 ^ 64) :=
    exists_run_of_exec _ (by decide +kernel)
  obtain ⟨c, hr, hplace, hfit⟩ := hex
  refine ⟨c, hr, ?_⟩
  refine (shrink_preserves_iff hr (by decide)).mpr ?_
  intro _
  exact ⟨hfit, .inl hplace⟩

/-- Two bytes have been consumed: the third is not read from where it was copied to, and the write
index lies behind the end of the storage. -/
theorem shrink_loses_bytes : ∃ c b', Run honest start [.append ⟨[1, 2, 3], by decide⟩, .retrieve 2] c ∧
    c.buf.readable = [3] ∧ c.buf.shrink 0 = .ok b' ∧ b'.readable ≠ [3] ∧
      b'.buffer_.length < b'.writerIndex_ := by
  let bad (c : Client) : Prop := c.buf.readable = [3] ∧ ∃ b' ∈ (c.buf.shrink 0).toOption,
    b'.readable ≠ [3] ∧ b'.buffer_.length < b'.writerIndex_
  have hex : ∃ c, Run honest start [.append ⟨[1, 2, 3], by decide⟩, .retrieve 2] c ∧ bad c :=
    exists_run_of_exec bad (by decide +kernel)
  obtain ⟨c, hr, hreadable, b', hb', hbad⟩ := hex
  exact ⟨c, b', hr, hreadable, eq_ok_of_toOption hb', hbad⟩

end MuduoNet.Buffer
