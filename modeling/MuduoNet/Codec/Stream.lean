import MuduoNet.Codec.Parse

/-!
# Decoding a stream that arrives in chunks

Each chunk is appended to the input buffer and `onMessage` is called once. Whatever the
chunks, the messages delivered are those of the longest prefix of valid frames, and the rest
stays in the buffer.
-/
namespace MuduoNet.ProtobufCodec

open Lib Lib.Outcome Lib.Words

variable (P : Protobuf)

/-- The last call that `onMessage` makes when it leaves the bytes `rest`. -/
def closing (rest : List UInt8) : List (Event P.Message) :=
  match head P rest with
  | .reject errorcode => [.errorCallback errorcode]
  | .more | .frame _ _ => []

/-- The calls that deliver the messages of `fs`. -/
def deliveries (fs : List (List UInt8 × P.Message)) : List (Event P.Message) :=
  fs.map fun f => .messageCallback f.2

/-- The loop of `onMessage` takes off all the frames there are, ends within its budget, and
says so if what is left is rejected. -/
theorem onMessageLoop_sat {budget : Nat} {buf : Buffer} (hwf : buf.Wf)
    (hbudget : buf.readable.length < budget) :
    Sat Nothing (onMessageLoop P budget buf) (fun r => r.2.Wf ∧
      ∃ fs, Decodes (framing P) buf.readable fs r.2.readable ∧
        r.1 = deliveries P fs ++ closing P r.2.readable) := by
  induction budget generalizing buf with
  | zero => omega
  | succ budget ih =>
    rw [onMessageLoop_succ P hwf]
    cases hhead : head P buf.readable with
    | more =>
      refine ⟨hwf, [], .stop ?_, ?_⟩
      · intro m n hframe
        cases hhead.symm.trans hframe
      · rw [closing, hhead]
        rfl
    | reject errorcode =>
      refine ⟨hwf, [], .stop ?_, ?_⟩
      · intro m n hframe
        cases hhead.symm.trans hframe
      · rw [closing, hhead]
        rfl
    | frame m n =>
      obtain ⟨hpos, hle⟩ := (framing P).frame_bounds hhead
      apply sat_bind (Buffer.retrieve_sat hwf hle)
      intro buf' ⟨hwf', hread⟩
      have hshort : buf'.readable.length < budget := by
        rw [hread, List.length_drop]
        omega
      apply sat_bind (ih hwf' hshort)
      intro ⟨events, buf''⟩ ⟨hwf'', fs, hd, hevents⟩
      rw [hread] at hd
      refine ⟨hwf'', _, .frame hhead hd, ?_⟩
      exact congrArg (Event.messageCallback m :: ·) hevents

theorem onMessage_sat {buf : Buffer} (hwf : buf.Wf) :
    Sat Nothing (onMessage P buf) (fun r => r.2.Wf ∧
      ∃ fs, Decodes (framing P) buf.readable fs r.2.readable ∧
        r.1 = deliveries P fs ++ closing P r.2.readable) := by
  apply onMessageLoop_sat P hwf
  rw [Buffer.length_readable hwf]
  omega

/-- The chunks are appended one by one, `onMessage` is called after each. -/
def feed : List Span → Buffer → Except Fault (List (Event P.Message) × Buffer)
  | [], buf => .ok ([], buf)
  | chunk :: chunks, buf => do
    let buf ← buf.append chunk.bytes
    let (events, buf) ← onMessage P buf
    let (later, buf) ← feed chunks buf
    return (events ++ later, buf)

theorem filterMap_deliveries (fs : List (List UInt8 × P.Message)) :
    (deliveries P fs).filterMap Event.message = fs.map Prod.snd := by
  induction fs with
  | nil => rfl
  | cons f fs ih => exact congrArg (f.2 :: ·) ih

theorem filterMap_closing (rest : List UInt8) : (closing P rest).filterMap Event.message = [] := by
  unfold closing
  split <;> rfl

/-- An error is followed by no message. -/
def ErrorsLast (events : List (Event P.Message)) : Prop :=
  events.Pairwise fun x y => x.message = none → y.message = none

theorem errorsLast_append {events later : List (Event P.Message)} (h : ErrorsLast P events)
    (g : ErrorsLast P later)
    (hlast : (∃ x ∈ events, x.message = none) → later.filterMap Event.message = []) :
    ErrorsLast P (events ++ later) := by
  apply List.pairwise_append.mpr
  refine ⟨h, g, ?_⟩
  intro x hx y hy hnone
  exact List.filterMap_eq_nil_iff.mp (hlast ⟨x, hx, hnone⟩) y hy

theorem errorsLast_round (fs : List (List UInt8 × P.Message)) (rest : List UInt8) :
    ErrorsLast P (deliveries P fs ++ closing P rest) := by
  have hmessage : ∀ x ∈ deliveries P fs, x.message ≠ none := by
    intro x hx
    obtain ⟨f, _, rfl⟩ := List.mem_map.mp hx
    intro h
    cases h
  apply errorsLast_append
  · apply List.pairwise_of_forall_mem_list
    intro x hx y _ hnone
    exact absurd hnone (hmessage x hx)
  · unfold closing
    split
    · exact List.pairwise_singleton _ _
    · exact .nil
    · exact .nil
  · intro _
    exact filterMap_closing P rest

/-- After a round that ended in an error nothing is taken off any more. -/
theorem no_frames_behind_error {events : List (Event P.Message)} {fs gs : List (List UInt8 × P.Message)}
    {rest ys rest' : List UInt8} (hevents : events = deliveries P fs ++ closing P rest)
    {x : Event P.Message} (hx : x ∈ events) (hnone : x.message = none)
    (hd : Decodes (framing P) (rest ++ ys) gs rest') : gs = [] ∧ rest' = rest ++ ys := by
  rw [hevents] at hx
  rcases List.mem_append.mp hx with hx | hx
  · obtain ⟨f, _, rfl⟩ := List.mem_map.mp hx
    cases hnone
  · unfold closing at hx
    split at hx
    · rename_i hrej
      exact Decodes.of_reject hrej hd
    · cases hx
    · cases hx

/-- What a chunk leaves is decoded together with the chunks to come. -/
theorem feed_sat (chunks : List Span) {buf : Buffer} (hwf : buf.Wf)
    (hstop : ∀ m n, head P buf.readable ≠ .frame m n) :
    Sat (Buffer.Exhausted (buf.readable ++ chunks.flatMap Span.bytes).length) (feed P chunks buf)
      (fun r => r.2.Wf ∧ ErrorsLast P r.1 ∧
        ∃ fs, Decodes (framing P) (buf.readable ++ chunks.flatMap Span.bytes) fs r.2.readable ∧
          r.1.filterMap Event.message = fs.map Prod.snd) := by
  induction chunks generalizing buf with
  | nil =>
    rw [List.flatMap_nil, List.append_nil]
    exact ⟨hwf, .nil, [], .stop hstop, rfl⟩
  | cons chunk chunks ih =>
    rw [List.flatMap_cons, ← List.append_assoc]
    have hgrow : ∀ (l : List UInt8) (bs : List UInt8), l.length ≤ bs.length →
        (l ++ chunks.flatMap Span.bytes).length ≤ (bs ++ chunks.flatMap Span.bytes).length := by
      intro l bs hle
      rw [List.length_append, List.length_append]
      omega
    apply sat_bind (sat_mono (Buffer.append_span_sat hwf chunk) _ (fun _ h => h))
    · intro buf₁ ⟨hwf₁, hread₁⟩
      apply sat_bind (sat_mono (onMessage_sat P hwf₁) (fun _ => False.elim) (fun _ h => h))
      intro ⟨events, buf₂⟩ ⟨hwf₂, fs, hd, hevents⟩
      dsimp only at hwf₂ hd hevents
      rw [hread₁] at hd
      have hle : buf₂.readable.length ≤ (buf.readable ++ chunk.bytes).length := by
        rw [hd.symbols_append, List.length_append]
        omega
      apply sat_bind (sat_mono (ih hwf₂ hd.exhausted) _ (fun _ h => h))
      · intro ⟨later, buf₃⟩ ⟨hwf₃, hlast, gs, hd', hlater⟩
        dsimp only at hwf₃ hlast hd' hlater
        refine ⟨hwf₃, ?_, fs ++ gs, hd.append hd', ?_⟩
        · apply errorsLast_append P (hevents ▸ errorsLast_round P fs _) hlast
          intro ⟨x, hx, hnone⟩
          rw [hlater, (no_frames_behind_error P hevents hx hnone hd').1, List.map_nil]
        · show (events ++ later).filterMap Event.message = _
          rw [List.filterMap_append, hlater, hevents, List.filterMap_append, filterMap_deliveries,
            filterMap_closing, List.append_nil, List.map_append]
      · intro f hf
        exact hf.mono (hgrow _ _ hle)
    · intro f hf
      apply hf.mono
      rw [← List.length_append]
      exact Nat.le_trans (Nat.le_add_right _ _) (Nat.le_of_eq List.length_append.symm)

/-- A complete frame that `onMessage` accepts, and its message. -/
structure ValidFrame (f : List UInt8) (m : P.Message) : Prop where
  complete : (f.length : Int) = kHeaderLen + Buffer.int32Of (f.take 4)
  length : (kMinMessageLen : Int) ≤ Buffer.int32Of (f.take 4) ∧
    Buffer.int32Of (f.take 4) ≤ kMaxMessageLen
  parses : parse P (f.drop kHeaderLen) (Buffer.int32Of (f.take 4)) = .ok (.kNoError, some m)

/-- The body of a complete frame is all that follows the header. -/
theorem take_body {f : List UInt8} {len : Nat} (h : f.length = kHeaderLen + len) :
    (f.drop kHeaderLen).take len = f.drop kHeaderLen ∧ (f.drop kHeaderLen).length = len := by
  have hlen : (f.drop kHeaderLen).length = len := by
    rw [List.length_drop]
    omega
  exact ⟨List.take_of_length_le (Nat.le_of_eq hlen), hlen⟩

theorem validFrame_iff (f : List UInt8) (m : P.Message) :
    ValidFrame P f m ↔ (framing P).Valid f m := by
  constructor
  · intro ⟨hcomplete, hrange, hparses⟩
    obtain ⟨len, hlen⟩ := Int.eq_ofNat_of_zero_le (show 0 ≤ Buffer.int32Of (f.take 4) by omega)
    rw [hlen] at hcomplete hrange hparses
    obtain ⟨htake, hbody⟩ := take_body (show f.length = kHeaderLen + len by omega)
    have hparsed := parse_eq P (by rw [hbody]; omega) (by rw [hbody]; omega)
    rw [hbody] at hparsed
    rw [hparsed] at hparses
    show head P f = _
    unfold head
    dsimp only
    rw [hlen, Int.toNat_natCast, if_neg (by omega), if_neg (by omega), if_neg (by omega), htake,
      Except.ok.inj hparses]
    exact congrArg _ (show kHeaderLen + len = f.length by omega)
  · intro hvalid
    obtain ⟨len, hcomplete, _, hlen, hmin, hmax, hparsed⟩ := head_frame P hvalid
    obtain ⟨htake, hbody⟩ := take_body hcomplete
    rw [htake] at hparsed
    refine ⟨by rw [hlen]; omega, by rw [hlen]; omega, ?_⟩
    have hparse := parse_eq P (by rw [hbody]; exact hmin) (by rw [hbody]; exact hmax)
    rw [hbody] at hparse
    rw [hlen, hparse, hparsed]

/-- For every stream there is one decoding, into its longest prefix of valid frames and the
rest, and every way to cut the stream into chunks delivers exactly that. -/
theorem decoding_independent_of_chunks (stream : List UInt8) :
    ∃ (frames : List (List UInt8 × P.Message)) (rest : List UInt8),
      (stream = frames.flatMap Prod.fst ++ rest ∧ (∀ f ∈ frames, ValidFrame P f.1 f.2) ∧
        ∀ (gs : List (List UInt8 × P.Message)) (r : List UInt8),
          stream = gs.flatMap Prod.fst ++ r → (∀ g ∈ gs, ValidFrame P g.1 g.2) → gs <+: frames) ∧
      ∀ chunks : List Span, chunks.flatMap Span.bytes = stream →
        Sat (Buffer.Exhausted stream.length) (feed P chunks Buffer.new) (fun r =>
          r.1.filterMap Event.message = frames.map Prod.snd ∧ r.2.readable = rest ∧
            ErrorsLast P r.1) := by
  obtain ⟨frames, rest, hd⟩ := exists_decodes (framing P) stream
  refine ⟨frames, rest, ⟨hd.symbols_append, ?_, ?_⟩, ?_⟩
  · intro f hf
    exact (validFrame_iff P _ _).mpr (hd.valid f hf)
  · intro gs r hgs hvalid
    apply hd.longest hgs
    intro g hg
    exact (validFrame_iff P _ _).mp (hvalid g hg)
  · intro chunks hchunks
    have hstop : ∀ m n, head P Buffer.new.readable ≠ .frame m n := by
      rw [Buffer.readable_new]
      exact (framing P).head_nil
    have hfeed := feed_sat P chunks Buffer.wf_new hstop
    rw [Buffer.readable_new, List.nil_append, hchunks] at hfeed
    apply sat_post hfeed
    intro r ⟨_, hlast, fs, hd', hmessages⟩
    obtain ⟨rfl, rfl⟩ := hd.unique hd'
    exact ⟨hmessages, rfl, hlast⟩

end MuduoNet.ProtobufCodec
