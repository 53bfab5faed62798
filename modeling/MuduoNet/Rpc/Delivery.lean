import MuduoNet.Rpc.Link

/-!
# Messages arrive as they were sent

In either direction what one end has sent is what the other has taken in, then what `onMessage`
has still to hand over, then the frames in the buffer and in the stream, which may be cut anywhere.
-/
namespace MuduoNet.Rpc

open Lib Lib.Outcome MuduoNet.ProtobufCodec

namespace RpcEnd

variable {conn : Nat} {s t : RpcEnd}

/-- No step but the arrival of a message is the arrival of a message. -/
theorem own_history {l : RpcLabel} (hl : l.receives = false) (he : s.enabled l)
    (hs : s.step conn l = .ok t) :
    ∃ es, t.history = s.history ++ es ∧ ∀ e ∈ es, e.handed = none := by
  cases l with
  | call thread service method bytes hasDone =>
    cases hs
    exact ⟨[], (List.append_nil _).symm, by simp⟩
  | register thread =>
    obtain ⟨id, out, message, hpc⟩ := he
    simp only [step, hpc] at hs
    cases hs
    exact ⟨[.registered id out message], rfl, by simp [RpcEvent.handed]⟩
  | send thread =>
    obtain ⟨message, hpc⟩ := he
    simp only [step, hpc] at hs
    cases hs
    exact ⟨[.sent message], rfl, by simp [RpcEvent.handed]⟩
  | receive message => cases hl
  | act =>
    cases hactions : s.actions with
    | nil => exact absurd hactions he
    | cons a rest =>
      simp only [step, hactions] at hs
      cases hs
      obtain ⟨es, hes, _, _, _, _, hhistory⟩ :=
        perform_eq ({ s with actions := rest }.log (.did a)) a
      refine ⟨.did a :: es, by rw [hhistory, log, List.append_assoc]; rfl, ?_⟩
      intro e hmem
      rcases List.mem_cons.mp hmem with rfl | hmem
      · rfl
      · obtain ⟨q, r, rfl⟩ := hes e hmem
        rfl
  | done message bytes =>
    cases hs
    exact ⟨[.answered message _], rfl, by simp [RpcEvent.handed]⟩

theorem own_traffic {l : RpcLabel} (hl : l.receives = false) (he : s.enabled l)
    (hs : s.step conn l = .ok t) :
    t.emitted = s.emitted ++ s.emits t ∧ t.handed = s.handed := by
  obtain ⟨es, hhistory, hes⟩ := own_history hl he hs
  have hhanded : es.filterMap RpcEvent.handed = [] := List.filterMap_eq_nil_iff.mpr hes
  unfold emitted emits handed
  rw [hhistory, List.drop_left, List.filterMap_append, List.filterMap_append, hhanded,
    List.append_nil]
  exact ⟨rfl, rfl⟩

theorem receive_traffic {m : RpcMessage} (htype : m.type ≠ .ERROR)
    (hs : s.receive conn m = .ok t) : t.emitted = s.emitted ∧ t.handed = s.handed ++ [m] := by
  unfold receive at hs
  obtain ⟨⟨actions, channel⟩, _, hs⟩ := bind_eq_ok hs
  cases hs
  unfold emitted handed
  dsimp only
  rw [List.filterMap_append, List.filterMap_append]
  cases h : m.type with
  | RESPONSE => simp [seen, h, RpcEvent.emitted, RpcEvent.handed]
  | REQUEST => simp [seen, h, RpcEvent.emitted, RpcEvent.handed]
  | ERROR => exact absurd h htype

end RpcEnd

namespace Link

section

variable {P : RpcProtobuf} {conn : Nat} {s t : Link P} {x : Bool}

theorem step_own {l : RpcLabel} (hs : (machine P conn).step s (.own x l) = .ok t) :
    ∃ rpc frames, (s x).rpc.step conn l = .ok rpc ∧
      ((s x).rpc.emits rpc).mapM (Input.send P) = .ok frames ∧ t x = { s x with rpc := rpc } ∧
      t (!x) = { s !x with incoming := (s !x).incoming ++ frames.flatten } := by
  obtain ⟨rpc, hrpc, hs⟩ := bind_eq_ok hs
  obtain ⟨frames, hframes, hs⟩ := bind_eq_ok hs
  cases hs
  refine ⟨rpc, frames, hrpc, hframes, ?_, Function.update_self _ _ _⟩
  rw [Function.update_of_ne (by cases x <;> decide), Function.update_self]

theorem step_deliver {chunk : Span} (hs : (machine P conn).step s (.deliver x chunk) = .ok t) :
    ∃ buf events buf', (s x).inputBuffer_.append chunk.bytes = .ok buf ∧
      ProtobufCodec.onMessage P.toProtobuf buf = .ok (events, buf') ∧
      t x = { s x with
        inputBuffer_ := buf'
        inbox := events
        incoming := (s x).incoming.drop chunk.bytes.length } ∧ t (!x) = s !x := by
  obtain ⟨buf, hbuf, hs⟩ := bind_eq_ok hs
  obtain ⟨⟨events, buf'⟩, hevents, hs⟩ := bind_eq_ok hs
  cases hs
  refine ⟨buf, events, buf', hbuf, hevents, Function.update_self _ _ _, ?_⟩
  exact Function.update_of_ne (by cases x <;> decide) _ _

/-- The messages of the inbox are handed over in order. -/
theorem step_hand {m : P.Message} {inbox : List (Event P.Message)}
    (hinbox : (s x).inbox = .messageCallback m :: inbox) (hs : (machine P conn).step s (.hand x) = .ok t) :
    ∃ message rpc, P.asRpc m = some message ∧ (s x).rpc.receive conn message = .ok rpc ∧
      t x = { s x with rpc := rpc, inbox := inbox } ∧ t (!x) = s !x := by
  simp only [machine, step, hinbox] at hs
  cases hcast : P.asRpc m with
  | none => simp only [hcast] at hs; cases hs
  | some message =>
    simp only [hcast] at hs
    obtain ⟨rpc, hrpc, hs⟩ := bind_eq_ok hs
    cases hs
    refine ⟨message, rpc, rfl, hrpc, Function.update_self _ _ _, ?_⟩
    exact Function.update_of_ne (by cases x <;> decide) _ _

/-- What a step does at either end: nothing, a step of the end, or the arrival of a message. -/
theorem step_end {l : LinkLabel} (he : (machine P conn).enabled s l)
    (hs : (machine P conn).step s l = .ok t) (y : Bool) :
    ((t y).rpc = (s y).rpc ∧ l.ownOf y = none) ∨
      ∃ l', (s y).rpc.enabled l' ∧ (s y).rpc.step conn l' = .ok (t y).rpc ∧
        [l'].filter (fun l => !l.receives) = (l.ownOf y).toList := by
  cases l with
  | own x l =>
    obtain ⟨rpc, frames, hrpc, _, htx, hty⟩ := step_own hs
    obtain rfl | rfl := Bool.eq_or_eq_not y x
    · rw [htx]
      exact .inr ⟨l, he.2, hrpc, by simp [LinkLabel.ownOf, he.1]⟩
    · rw [hty]
      exact .inl ⟨rfl, by cases x <;> rfl⟩
  | deliver x chunk =>
    obtain ⟨_, _, _, _, _, htx, hty⟩ := step_deliver hs
    obtain rfl | rfl := Bool.eq_or_eq_not y x
    · rw [htx]
      exact .inl ⟨rfl, rfl⟩
    · rw [hty]
      exact .inl ⟨rfl, rfl⟩
  | hand x =>
    cases hinbox : (s x).inbox with
    | nil => exact absurd hinbox he.1
    | cons e inbox =>
      cases e with
      | messageCallback m =>
        obtain ⟨message, rpc, _, hrpc, htx, hty⟩ := step_hand hinbox hs
        obtain rfl | rfl := Bool.eq_or_eq_not y x
        · rw [htx]
          exact .inr ⟨.receive message, he.2, hrpc, rfl⟩
        · rw [hty]
          exact .inl ⟨rfl, rfl⟩
      | errorCallback code =>
        simp only [machine, step, hinbox] at hs
        cases hs
        obtain rfl | rfl := Bool.eq_or_eq_not y x
        · rw [Function.update_self]
          exact .inl ⟨rfl, rfl⟩
        · rw [Function.update_of_ne (by cases x <;> decide)]
          exact .inl ⟨rfl, rfl⟩

/-- Each end does what an end does with some messages that arrive; the rest are its own steps. -/
theorem end_run {ls : List LinkLabel} (h : Run (machine P conn) s ls t) (y : Bool) :
    ∃ rls, Run (RpcEnd.machine conn) (s y).rpc rls (t y).rpc ∧
      rls.filter (fun l => !l.receives) = ls.filterMap (LinkLabel.ownOf y) := by
  induction h with
  | nil s => exact ⟨[], .nil _, rfl⟩
  | @cons s u t l ls he hs _ ih =>
    obtain ⟨rls, hr, hown⟩ := ih
    obtain ⟨heq, hnone⟩ | ⟨l', he', hs', hl⟩ := step_end he hs y
    · rw [heq] at hr
      exact ⟨rls, hr, by rw [hown, List.filterMap_cons_none hnone]⟩
    · refine ⟨l' :: rls, .cons he' hs' hr, ?_⟩
      rw [← List.singleton_append, List.filter_append, hl, hown]
      cases hlabel : l.ownOf y with
      | none => rw [List.filterMap_cons_none hlabel]; rfl
      | some own => rw [List.filterMap_cons_some hlabel]; rfl

theorem end_reachable {first : Bool → Int64} {services : Bool → Option Services}
    (h : Reachable (machine P conn) (start conn P first services) s) (x : Bool) :
    Reachable (RpcEnd.machine conn) (RpcEnd.start conn (first x) (services x)) (s x).rpc := by
  obtain ⟨ls, hr⟩ := h
  obtain ⟨rls, hr', _⟩ := end_run hr x
  exact ⟨rls, hr'⟩

/-- The calls and the answers of an end are those of the labels of its own steps. -/
theorem end_logged {first : Bool → Int64} {services : Bool → Option Services} {ls : List LinkLabel}
    (h : Run (machine P conn) (start conn P first services) ls s) (x : Bool) :
    (s x).rpc.Logged (ls.filterMap (LinkLabel.ownOf x)) := by
  obtain ⟨rls, hr, hown⟩ := end_run h x
  rw [← hown]
  exact (RpcEnd.run_logged hr).own

/-- What has been sent so far fits. -/
def AllFit (s : Link P) : Prop := ∀ x, ∀ m ∈ (s x).rpc.emitted, P.Fits m

/-- What has been sent to `x` is where it should be. -/
structure Carried (s : Link P) (x : Bool) : Prop where
  wf : (s x).inputBuffer_.Wf
  stream : ∃ waiting flight : List RpcMessage,
    (s x).inbox = waiting.map (fun m => .messageCallback (P.ofRpc m)) ∧
    (s x).inputBuffer_.readable ++ (s x).incoming = flight.flatMap P.frame ∧
    (s !x).rpc.emitted = (s x).rpc.handed ++ (waiting ++ flight)

theorem Carried.of_same (hi : Carried s x) (hbuf : (t x).inputBuffer_ = (s x).inputBuffer_)
    (hinbox : (t x).inbox = (s x).inbox) (hincoming : (t x).incoming = (s x).incoming)
    (hhanded : (t x).rpc.handed = (s x).rpc.handed)
    (hemitted : (t !x).rpc.emitted = (s !x).rpc.emitted) : Carried t x := by
  constructor
  · rw [hbuf]
    exact hi.wf
  · rw [hbuf, hinbox, hincoming, hhanded, hemitted]
    exact hi.stream

theorem mapM_send (hP : P.Sound) {ms : List RpcMessage} (hfit : ∀ m ∈ ms, P.Fits m) :
    ms.mapM (Input.send P) = .ok (ms.map P.frame) := by
  induction ms with
  | nil => rfl
  | cons m ms ih =>
    have hm := Input.send_eq hP (hP.encodable (hfit m List.mem_cons_self))
    have hms := ih fun k hk => hfit k (List.mem_cons_of_mem _ hk)
    rw [List.mapM_cons, hm, ok_bind, hms]
    rfl

theorem Carried.own (hP : P.Sound) (hi : ∀ y, Carried s y) {l : RpcLabel}
    (he : (machine P conn).enabled s (.own x l)) (hs : (machine P conn).step s (.own x l) = .ok t)
    (hfit : AllFit t) (y : Bool) : Carried t y := by
  obtain ⟨rpc, frames, hrpc, hframes, htx, hty⟩ := step_own hs
  obtain ⟨hemitted, hhanded⟩ := RpcEnd.own_traffic he.1 he.2 hrpc
  rcases Bool.eq_or_eq_not y x with rfl | rfl
  · apply (hi y).of_same <;> simp only [htx, hty]
    exact hhanded
  · have hnew : ((s x).rpc.emits rpc).mapM (Input.send P) = .ok (((s x).rpc.emits rpc).map P.frame) := by
      apply mapM_send hP
      intro m hm
      apply hfit x
      rw [htx, hemitted]
      exact List.mem_append_right _ hm
    obtain rfl := Except.ok.inj (hframes.symm.trans hnew)
    obtain ⟨waiting, flight, hinbox, hbytes, hsent⟩ := (hi !x).stream
    refine ⟨by rw [hty]; exact (hi !x).wf, waiting, flight ++ (s x).rpc.emits rpc, ?_, ?_, ?_⟩
    · rw [hty]
      exact hinbox
    · rw [hty]
      dsimp only
      rw [← List.append_assoc, hbytes, List.flatMap_append, ← List.flatMap_def]
    · rw [hty, Bool.not_not, htx]
      rw [Bool.not_not] at hsent
      dsimp only
      rw [hemitted, hsent, List.append_assoc, List.append_assoc]

theorem closing_eq_nil {rest tail : List UInt8} {fs : List (List UInt8 × P.Message)}
    (hvalid : ∀ f ∈ fs, (framing P.toProtobuf).Valid f.1 f.2) (hrest : rest ++ tail = symbols fs) :
    closing P.toProtobuf rest = [] := by
  have hnil : ∀ e, head P.toProtobuf [] ≠ .reject e := by
    intro e h
    cases h
  unfold closing
  cases hhead : head P.toProtobuf rest with
  | reject e => exact absurd hhead (head_not_reject hvalid hrest hnil)
  | _ => rfl

theorem Carried.deliver (hP : P.Sound) (hi : ∀ y, Carried s y) {chunk : Span}
    (he : (machine P conn).enabled s (.deliver x chunk))
    (hs : (machine P conn).step s (.deliver x chunk) = .ok t) (hfit : AllFit s) (y : Bool) :
    Carried t y := by
  obtain ⟨buf, events, buf', hbuf, hevents, htx, hty⟩ := step_deliver hs
  obtain ⟨hinbox, _, tail, htail⟩ := he
  rcases Bool.eq_or_eq_not y x with rfl | rfl
  · obtain ⟨waiting, flight, hwaiting, hbytes, hsent⟩ := (hi y).stream
    obtain rfl : waiting = [] := by
      rw [hinbox] at hwaiting
      exact List.map_eq_nil_iff.mp hwaiting.symm
    obtain ⟨hwf, hread⟩ := (Buffer.append_span_sat (hi y).wf chunk).of_ok hbuf
    obtain ⟨hwf', fs, hd, hdelivered⟩ := (onMessage_sat P.toProtobuf hwf).of_ok hevents
    dsimp only at hwf' hd hdelivered
    have hdrop : (s y).incoming.drop chunk.bytes.length = tail := by
      rw [← htail, List.drop_left]
    -- the frames of the stream, as the decoder sees them
    have hwhole : buf.readable ++ tail =
        symbols (flight.map fun m => (P.frame m, P.ofRpc m)) := by
      rw [hread, List.append_assoc, htail, hbytes, symbols, List.flatMap_map]
    have hvalid : ∀ f ∈ flight.map fun m => (P.frame m, P.ofRpc m),
        (framing P.toProtobuf).Valid f.1 f.2 := by
      intro f hf
      obtain ⟨m, hm, rfl⟩ := List.mem_map.mp hf
      apply hP.frame_valid
      apply hfit !y
      rw [hsent]
      simp [hm]
    obtain ⟨ks, hsplit, hrest⟩ := Decodes.of_front hvalid hwhole hd
    obtain ⟨taken, left, rfl, rfl, rfl⟩ := List.map_eq_append_iff.mp hsplit
    have hclosing : closing P.toProtobuf buf'.readable = [] := by
      refine closing_eq_nil ?_ hrest
      intro f hf
      exact hvalid f (by rw [List.map_append]; exact List.mem_append_right _ hf)
    refine ⟨by rw [htx]; exact hwf', taken, left, ?_, ?_, ?_⟩
    · rw [htx]
      dsimp only
      rw [hdelivered, hclosing, List.append_nil, deliveries, List.map_map]
      rfl
    · rw [htx]
      dsimp only
      rw [hdrop, hrest, symbols, List.flatMap_map]
    · rw [htx, hty]
      exact hsent
  · have hpeer : (t !!x).rpc.emitted = (s !!x).rpc.emitted := by
      rw [Bool.not_not, htx]
    exact (hi !x).of_same (by rw [hty]) (by rw [hty]) (by rw [hty]) (by rw [hty]) hpeer

theorem Carried.hand (hP : P.Sound) (hi : ∀ y, Carried s y)
    (htypes : ∀ y, ∀ m ∈ (s y).rpc.emitted, m.type ≠ .ERROR)
    (he : (machine P conn).enabled s (.hand x)) (hs : (machine P conn).step s (.hand x) = .ok t)
    (y : Bool) : Carried t y := by
  obtain ⟨waiting, flight, hwaiting, hbytes, hsent⟩ := (hi x).stream
  cases waiting with
  | nil => exact absurd hwaiting he.1
  | cons m waiting =>
    obtain ⟨message, rpc, hcast, hrpc, htx, hty⟩ := step_hand hwaiting hs
    obtain rfl := Option.some.inj ((hP.cast m).symm.trans hcast)
    have htype : m.type ≠ .ERROR := by
      apply htypes !x
      rw [hsent]
      simp
    obtain ⟨hemitted, hhanded⟩ := RpcEnd.receive_traffic htype hrpc
    rcases Bool.eq_or_eq_not y x with rfl | rfl
    · refine ⟨by rw [htx]; exact (hi y).wf, waiting, flight, ?_, ?_, ?_⟩
      · rw [htx]
      · rw [htx]
        exact hbytes
      · rw [htx, hty]
        dsimp only
        rw [hhanded, hsent, List.append_assoc]
        rfl
    · have hpeer : (t !!x).rpc.emitted = (s !!x).rpc.emitted := by
        rw [Bool.not_not, htx]
        exact hemitted
      exact (hi !x).of_same (by rw [hty]) (by rw [hty]) (by rw [hty]) (by rw [hty]) hpeer

/-- An end sends requests and responses only. -/
theorem emitted_type {first : Int64} {services : Option Services} {e : RpcEnd}
    (h : Reachable (RpcEnd.machine conn) (RpcEnd.start conn first services) e) :
    ∀ m ∈ e.emitted, m.type ≠ .ERROR := by
  intro m hm
  obtain ⟨event, hmem, hevent⟩ := List.mem_filterMap.mp hm
  cases event with
  | sent m' =>
    obtain rfl := Option.some.inj hevent
    obtain ⟨id, out, hregistered⟩ := (RpcEnd.reachable_sends h).sent _ hmem
    obtain ⟨_, _, _, _, _, htype, _⟩ := (RpcEnd.reachable_inv h).registered _ _ _ hregistered
    rw [htype]
    intro hcontra
    cases hcontra
  | answered q r =>
    obtain rfl := Option.some.inj hevent
    intro htype
    cases (RpcEnd.reachable_serves h).answered _ _ hmem <;> cases htype
  | _ => cases hevent

/-- Histories grow. -/
theorem history_grows {l : LinkLabel} (he : (machine P conn).enabled s l)
    (hs : (machine P conn).step s l = .ok t) (y : Bool) :
    ∃ es, (t y).rpc.history = (s y).rpc.history ++ es := by
  obtain ⟨heq, _⟩ | ⟨l', he', hs', _⟩ := step_end he hs y
  · exact ⟨[], by rw [heq, List.append_nil]⟩
  · cases hl : l'.receives with
    | false =>
      obtain ⟨es, hhistory, _⟩ := RpcEnd.own_history hl he' hs'
      exact ⟨es, hhistory⟩
    | true =>
      cases l' with
      | receive message =>
        obtain ⟨_, _, hs'⟩ := bind_eq_ok hs'
        exact ⟨(s y).rpc.seen message, congrArg RpcEnd.history (Except.ok.inj hs').symm⟩
      | _ => cases hl

theorem allFit_of_step {l : LinkLabel} (he : (machine P conn).enabled s l)
    (hs : (machine P conn).step s l = .ok t) (hfit : AllFit t) : AllFit s := by
  intro y m hm
  obtain ⟨es, hhistory⟩ := history_grows he hs y
  apply hfit y
  rw [RpcEnd.emitted, hhistory, List.filterMap_append]
  exact List.mem_append_left _ hm

theorem start_carried (first : Bool → Int64) (services : Bool → Option Services) (x : Bool) :
    Carried (start conn P first services) x := by
  refine ⟨Buffer.wf_new, [], [], rfl, ?_, rfl⟩
  show Buffer.new.readable ++ [] = _
  rw [Buffer.readable_new]
  rfl

theorem reachable_carried (hP : P.Sound) {first : Bool → Int64} {services : Bool → Option Services}
    (h : Reachable (machine P conn) (start conn P first services) s) (hfit : AllFit s) (x : Bool) :
    Carried s x := by
  have hboth : Reachable (machine P conn) (start conn P first services) s ∧
      (AllFit s → ∀ y, Carried s y) := by
    refine h.invariant (I := fun s => Reachable (machine P conn) (start conn P first services) s ∧
      (AllFit s → ∀ y, Carried s y)) ?_ ⟨.refl, fun _ => start_carried first services⟩
    intro s l t ⟨hr, hi⟩ he hs
    refine ⟨hr.next he hs, ?_⟩
    intro hfit y
    have hbefore := allFit_of_step he hs hfit
    cases l with
    | own x l => exact Carried.own hP (hi hbefore) he hs hfit y
    | deliver x chunk => exact Carried.deliver hP (hi hbefore) he hs hbefore y
    | hand x =>
      exact Carried.hand hP (hi hbefore) (fun y => emitted_type (end_reachable hr y)) he hs y
  exact hboth.2 hfit x

end

end Link

end MuduoNet.Rpc
