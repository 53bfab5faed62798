import MuduoNet.Rpc.Completion
import MuduoNet.Rpc.Generated

/-!
# The sudoku client and the sudoku server

The client calls `Solve` and the server answers; both are linked with the generated classes. Any
number of calls may be under way, and the server may run the closures of its requests in any order.
-/
namespace MuduoNet.Sudoku

open Lib Lib.Outcome ProtobufCodec Rpc
open Generated (GeneratedMessage WireFormat Pool SudokuRequest SudokuResponse plain plain_lawful
  plain_verbatim)
open Generated.GeneratedMessage

/-- `service()->full_name()` -/
def full_name : List UInt8 := "sudoku.SudokuService".toUTF8.toList

/-- `method()->name()` -/
def name : List UInt8 := "Solve".toUTF8.toList

section

variable {W : WireFormat}

/-- `request.set_checkerboard` -/
def request (checkerboard : List UInt8) : GeneratedMessage W SudokuRequest :=
  new.store ⟨0, by decide⟩ checkerboard

/-- What `SudokuServiceImpl::Solve` makes of the response. -/
def Solve (response : GeneratedMessage W SudokuResponse) : GeneratedMessage W SudokuResponse :=
  (response.store ⟨0, by decide⟩ true).store ⟨1, by decide⟩ "1234567".toUTF8.toList

theorem request_wf {checkerboard : List UInt8} (h : checkerboard.length + 138 ≤ kMaxMessageLen) :
    (request checkerboard : GeneratedMessage W _).Wf := by
  refine new_wf.store (sudokuClasses.coherent sudokuRequest_) rfl ?_
  show checkerboard.length < 2 ^ 31
  have hbound : kMaxMessageLen < 2 ^ 31 := by decide
  omega

theorem request_initialized (checkerboard : List UInt8) :
    (request checkerboard : GeneratedMessage W _).IsInitialized = true := by
  show decide ((0 ||| BitVec.twoPow 32 0) &&& 0x1 = (0x1 : BitVec 32)) = true
  decide

theorem length_request (hW : W.Lawful) {checkerboard : List UInt8}
    (h : checkerboard.length + 138 ≤ kMaxMessageLen) : (request checkerboard :
      GeneratedMessage W _).InternalSerializeWithCachedSizesToArray.length ≤ 11 + checkerboard.length := by
  have hlen := length_store hW (sudokuClasses.coherent sudokuRequest_) new ⟨0, by decide⟩
    (v := checkerboard) ?_
  · rw [serialize_new, List.length_nil, Nat.zero_add] at hlen
    exact hlen
  · show checkerboard.length < 2 ^ 31
    have hbound : kMaxMessageLen < 2 ^ 31 := by decide
    omega

theorem solution_fits : Generated.FieldType.string.Fits "1234567".toUTF8.toList := by
  show ("1234567".toUTF8.toList).length < 2 ^ 31
  decide +kernel

theorem solution_wf : (Solve new : GeneratedMessage W _).Wf := by
  have hc : SudokuResponse.Coherent := sudokuClasses.coherent sudokuResponse_
  have hsolved : ((new : GeneratedMessage W SudokuResponse).store ⟨0, by decide⟩ true).Wf :=
    new_wf.store hc rfl trivial
  exact hsolved.store hc rfl solution_fits

theorem solution_initialized : (Solve new : GeneratedMessage W _).IsInitialized = true := by
  show decide ((Solve new : GeneratedMessage W _)._has_bits_ &&& 0 = 0) = true
  exact decide_eq_true BitVec.and_zero

theorem length_solution (hW : W.Lawful) :
    (Solve new : GeneratedMessage W _).InternalSerializeWithCachedSizesToArray.length ≤ 29 := by
  have hc : SudokuResponse.Coherent := sudokuClasses.coherent sudokuResponse_
  have hwidth : ("1234567".toUTF8.toList).length ≤ 7 := by decide +kernel
  have hnew : (new : GeneratedMessage W
      SudokuResponse).InternalSerializeWithCachedSizesToArray.length ≤ 0 := by
    rw [serialize_new]
    rfl
  have hlen : (Solve new : GeneratedMessage W _).InternalSerializeWithCachedSizesToArray.length ≤
      0 + (11 + 0) + (11 + 7) :=
    length_store_le hW hc (length_store_le hW hc hnew trivial (Nat.le_refl 0)) solution_fits hwidth
  exact hlen

end

variable {W : WireFormat} (L : Pool W sudokuClasses)

def SerializeAsString (i : SudokuClass) (m : GeneratedMessage W (sudokuClasses.classes.get i)) :
    List UInt8 :=
  L.SerializeWithCachedSizesToArray (L.object i m)

/-- The request is parsed into a new message. -/
def SolveMethod : Method := ⟨fun data => (L.ParseFromArray (L.object sudokuRequest_ new) data).1⟩

def SudokuService : Service := ⟨fun method => if method = name then some (SolveMethod L) else none⟩

/-- `RpcServer::registerService` of the one service. -/
def services : Services := fun service => if service = full_name then some (SudokuService L) else none

/-- `stub_.Solve` of the client, with a closure; the checkerboard fits into a message. The server
calls nothing. Whatever `Solve` is asked, it answers the same. -/
def Programs : LinkLabel → Prop
  | .own x (.call _ service method bytes hasDone) => x = false ∧ service = full_name ∧ method = name ∧
      hasDone = true ∧ ∃ checkerboard : List UInt8, checkerboard.length + 138 ≤ kMaxMessageLen ∧
        bytes = SerializeAsString L sudokuRequest_ (request checkerboard)
  | .own _ (.done _ bytes) => bytes = SerializeAsString L sudokuResponse_ (Solve new)
  | _ => True

def machine (conn : Nat) : Machine (Link (rpcProtobuf L)) LinkLabel Fault :=
  (Link.machine (rpcProtobuf L) conn).restrict fun _ => Programs L

/-- The client is `false`, the server `true`. -/
def start (conn : Nat) : Link (rpcProtobuf L) :=
  Link.start conn (rpcProtobuf L) (fun _ => 0) fun x => if x then some (services L) else none

/-- A call of `Solve` with a closure. -/
def IsSolve (out : OutstandingCall) (message : RpcMessage) : Prop :=
  (∃ n, out = ⟨some n, some n⟩) ∧ ∃ id, ∃ checkerboard : List UInt8,
    checkerboard.length + 138 ≤ kMaxMessageLen ∧ message =
      Rpc.request id full_name name (SerializeAsString L sudokuRequest_ (request checkerboard))

variable {L}

theorem request_parsed (hL : L.Lawful) (hW : W.Lawful) {checkerboard : List UInt8}
    (h : checkerboard.length + 138 ≤ kMaxMessageLen) :
    (SolveMethod L).parses (SerializeAsString L sudokuRequest_ (request checkerboard)) = true := by
  have hparsed := hL.parse_written hW (i := sudokuRequest_) (request_wf h)
    (request_initialized checkerboard)
  exact congrArg Prod.fst hparsed

theorem IsSolve.fits (hL : L.Lawful) (hW : W.Lawful) {out : OutstandingCall} {message : RpcMessage}
    (h : IsSolve L out message) : (rpcProtobuf L).Fits message := by
  obtain ⟨_, id, checkerboard, hlen, rfl⟩ := h
  apply rpcProtobuf_fits hL hW
  have hrequest := length_request hW hlen
  have hwritten : (SerializeAsString L sudokuRequest_ (request checkerboard)).length =
      (request checkerboard :
        GeneratedMessage W _).InternalSerializeWithCachedSizesToArray.length :=
    congrArg List.length (hL.written_object sudokuRequest_ _)
  have hname : full_name.length + name.length = 25 := by decide +kernel
  show full_name.length + name.length +
    (SerializeAsString L sudokuRequest_ (request checkerboard)).length + 0 + 102 ≤ _
  omega

/-- The lookups of the server succeed. -/
theorem IsSolve.reply (hL : L.Lawful) (hW : W.Lawful) {out : OutstandingCall}
    {message reply : RpcMessage} (h : IsSolve L out message)
    (hreply : IsReply (some (services L)) message reply) :
    ∃ bytes, reply.response = some bytes ∧ reply.error = none := by
  obtain ⟨_, id, checkerboard, hlen, rfl⟩ := h
  have hservice : services L full_name = some (SudokuService L) := if_pos rfl
  have hmethod : (SudokuService L).FindMethodByName name = some (SolveMethod L) := if_pos rfl
  cases hreply with
  | noService hnone => cases hservice.symm.trans hnone
  | noMethod hsome hnone =>
    obtain rfl := Option.some.inj (hservice.symm.trans hsome)
    cases hmethod.symm.trans hnone
  | invalid hsome hfound hinvalid =>
    obtain rfl := Option.some.inj (hservice.symm.trans hsome)
    obtain rfl := Option.some.inj (hmethod.symm.trans hfound)
    cases (request_parsed hL hW hlen).symm.trans hinvalid
  | done _ _ _ bytes => exact ⟨bytes, rfl, rfl⟩

section

variable {conn : Nat} {s : Link (rpcProtobuf L)} {ls : List LinkLabel}

/-- A run of the two ends in which these programs call and answer. -/
structure Solves (L : Pool W sudokuClasses) (conn : Nat) (ls : List LinkLabel)
    (s : Link (rpcProtobuf L)) : Prop where
  run : Run (Link.machine (rpcProtobuf L) conn) (start L conn) ls s
  programs : ∀ l ∈ ls, Programs L l

theorem reachable_solves (h : Reachable (machine L conn) (start L conn) s) :
    ∃ ls, Solves L conn ls s := by
  obtain ⟨ls, hr⟩ := h
  refine ⟨ls, hr.of_restrict, ?_⟩
  refine hr.records (I := fun ls _ => ∀ l ∈ ls, Programs L l) ?_ (by simp)
  intro ls s l t hi he _ l' hl'
  obtain hl' | hl' := List.mem_append.mp hl'
  · exact hi l' hl'
  · rw [List.mem_singleton.mp hl']
    exact he.2

theorem Solves.link (h : Solves L conn ls s) :
    Reachable (Link.machine (rpcProtobuf L) conn) (start L conn) s := ⟨ls, h.run⟩

/-- A step of an end is one of the program. -/
theorem Solves.own (h : Solves L conn ls s) {x : Bool} {own : RpcLabel}
    (hown : own ∈ ls.filterMap (LinkLabel.ownOf x)) : Programs L (.own x own) := by
  obtain ⟨l, hl, heq⟩ := List.mem_filterMap.mp hown
  obtain rfl := LinkLabel.eq_own heq
  exact h.programs _ hl

theorem Solves.asked (h : Solves L conn ls s) {x : Bool} {args : CallArguments}
    (hargs : args ∈ (ls.filterMap (LinkLabel.ownOf x)).filterMap RpcLabel.asked) :
    x = false ∧ args.service = full_name ∧ args.method = name ∧ args.hasDone = true ∧
      ∃ checkerboard : List UInt8, checkerboard.length + 138 ≤ kMaxMessageLen ∧
        args.request = SerializeAsString L sudokuRequest_ (request checkerboard) := by
  obtain ⟨own, hmem, hown⟩ := List.mem_filterMap.mp hargs
  cases own with
  | call thread service method bytes hasDone =>
    obtain rfl := Option.some.inj hown
    exact h.own hmem
  | _ => cases hown

theorem Solves.registered (h : Solves L conn ls s) {x : Bool} {id : Int64} {out : OutstandingCall}
    {message : RpcMessage} (hmem : .registered id out message ∈ (s x).rpc.history) :
    IsSolve L out message := by
  obtain ⟨n, args, hn, rfl, rfl⟩ := (Link.end_logged h.run x).registered id out message hmem
  obtain ⟨_, hservice, hmethod, hdone, checkerboard, hlen, hbytes⟩ :=
    h.asked (List.mem_of_getElem? hn)
  rw [hservice, hmethod, hdone, hbytes]
  exact ⟨⟨n, rfl⟩, id, checkerboard, hlen, rfl⟩

theorem Solves.answered (h : Solves L conn ls s) {x : Bool} {q r : RpcMessage} {bytes : List UInt8}
    (hmem : .answered q r ∈ (s x).rpc.history) (hbytes : r.response = some bytes) :
    bytes = SerializeAsString L sudokuResponse_ (Solve new) := by
  have hpayload : (q, bytes) ∈ (s x).rpc.history.filterMap RpcEvent.payload := by
    refine List.mem_filterMap.mpr ⟨_, hmem, ?_⟩
    rw [RpcEvent.payload, hbytes]
    rfl
  rw [(Link.end_logged h.run x).payloads] at hpayload
  obtain ⟨own, hmem', hown⟩ := List.mem_filterMap.mp hpayload
  cases own with
  | done q' bytes' =>
    obtain ⟨_, rfl⟩ := Prod.mk.inj (Option.some.inj hown)
    exact h.own hmem'
  | _ => cases hown

theorem Solves.server_calls (h : Solves L conn ls s) : (s true).rpc.calls = 0 := by
  rw [(Link.end_logged h.run true).calls, List.length_eq_zero_iff, List.eq_nil_iff_forall_not_mem]
  intro args hargs
  cases (h.asked hargs).1

/-- All that is sent fits into a frame. -/
theorem Solves.fits (hL : L.Lawful) (hW : W.Lawful) (h : Solves L conn ls s) : Link.AllFit s := by
  intro x m hm
  have hend := Link.end_reachable h.link x
  obtain ⟨event, hmem, hevent⟩ := List.mem_filterMap.mp hm
  cases event with
  | sent m' =>
    obtain rfl := Option.some.inj hevent
    obtain ⟨id, out, hregistered⟩ := (RpcEnd.reachable_sends hend).sent _ hmem
    exact (h.registered hregistered).fits hL hW
  | answered q r =>
    obtain rfl := Option.some.inj hevent
    apply rpcProtobuf_fits hL hW
    have hsolution := length_solution hW
    have hwritten : (SerializeAsString L sudokuResponse_ (Solve new)).length =
        (Solve new : GeneratedMessage W _).InternalSerializeWithCachedSizesToArray.length :=
      congrArg List.length (hL.written_object sudokuResponse_ _)
    have hresult : ∀ bytes, r.response = some bytes →
        bytes = SerializeAsString L sudokuResponse_ (Solve new) := fun _ => h.answered hmem
    cases (RpcEnd.reachable_serves hend).answered q r hmem with
    | done _ _ _ bytes =>
      obtain rfl := hresult bytes rfl
      show 0 + 0 + 0 + (SerializeAsString L sudokuResponse_ (Solve new)).length + 102 ≤ kMaxMessageLen
      unfold kMaxMessageLen
      omega
    | _ => exact (by decide : 0 + 102 ≤ kMaxMessageLen)
  | _ => cases hevent

/-- What the client does for a response to its call. -/
theorem Solves.response (hL : L.Lawful) (hW : W.Lawful) (hV : W.Verbatim) (h : Solves L conn ls s)
    (hcalls : (s false).rpc.calls ≤ 2 ^ 64) {reply : RpcMessage} {out : OutstandingCall} {n : Nat}
    (hreply : .response reply out ∈ (s false).rpc.history) (hout : out.response = some n) :
    reply.response = some (SerializeAsString L sudokuResponse_ (Solve new)) ∧ reply.error = none ∧
      out.done = some n := by
  obtain ⟨id, message, hregistered, hanswered⟩ := Link.matched (rpcProtobuf_sound hL hW hV) h.link
    (h.fits hL hW) hcalls hreply hout
  have hsolve := h.registered hregistered
  have hserved := (RpcEnd.reachable_serves (Link.end_reachable h.link true)).answered message reply
    hanswered
  obtain ⟨bytes, hbytes, herror⟩ := hsolve.reply hL hW hserved
  obtain rfl := h.answered hanswered hbytes
  obtain ⟨⟨n', rfl⟩, _⟩ := hsolve
  exact ⟨hbytes, herror, hout⟩

/-- Whatever checkerboards the client sends from however many threads, and however the bytes and the
closures of the server are delayed: no response is an error, each has the bytes that parse to the
server's solution, and when nothing is on its way any more, each call has parsed them into its
response, has run its closure once and has deleted its response. -/
theorem sudoku_solved (hL : L.Lawful) (hW : W.Lawful) (hV : W.Verbatim)
    (h : Reachable (machine L conn) (start L conn) s) (hcalls : (s false).rpc.calls ≤ 2 ^ 64) :
    ∃ bytes, L.ParseFromArray (L.object sudokuResponse_ new) bytes =
        (true, L.object sudokuResponse_ (Solve new)) ∧
      (∀ reply out n, .response reply out ∈ (s false).rpc.history → out.response = some n →
        reply.response = some bytes ∧ reply.error = none) ∧
      (Link.Quiet s → ∀ n < (s false).rpc.calls,
        ((s false).rpc.history.filterMap RpcEvent.action).filter (fun a => a.ofCall = some n) =
          [.parse n bytes, .run n, .free n]) := by
  obtain ⟨ls, hsolves⟩ := reachable_solves h
  refine ⟨SerializeAsString L sudokuResponse_ (Solve new),
    hL.parse_written hW (i := sudokuResponse_) solution_wf solution_initialized, ?_, ?_⟩
  · intro reply out n hreply hout
    obtain ⟨hbytes, herror, _⟩ := hsolves.response hL hW hV hcalls hreply hout
    exact ⟨hbytes, herror⟩
  · intro hq n hn
    have hall : ∀ y, (s y).rpc.calls ≤ 2 ^ 64 := by
      intro y
      cases y with
      | false => exact hcalls
      | true =>
        rw [hsolves.server_calls]
        exact Nat.zero_le _
    obtain ⟨message, reply, hcompleted⟩ := hq.completed (rpcProtobuf_sound hL hW hV) hsolves.link
      (hsolves.fits hL hW) hall hn
    obtain ⟨_, out, _, hreply, hout, hactions⟩ := hcompleted.entered
    obtain ⟨hbytes, _, hdone⟩ := hsolves.response hL hW hV hcalls hreply hout
    rw [hactions, hbytes, hdone]
    rfl

end

/-- Two calls, whose requests arrive together. The second is answered first. -/
def twoCalls (L : Pool W sudokuClasses) : List LinkLabel :=
  let call (thread : Nat) (checkerboard : String) : RpcLabel := .call thread full_name name
    (SerializeAsString L sudokuRequest_ (request checkerboard.toUTF8.toList)) true
  let message (id : Int64) (checkerboard : String) : RpcMessage := Rpc.request id full_name name
    (SerializeAsString L sudokuRequest_ (request checkerboard.toUTF8.toList))
  let solution := SerializeAsString L sudokuResponse_ (Solve new)
  let requests := (rpcProtobuf L).frame (message 1 "001010") ++ (rpcProtobuf L).frame (message 2 "110")
  let replies := (rpcProtobuf L).frame (doneReply 2 solution) ++
    (rpcProtobuf L).frame (doneReply 1 solution)
  [.own false (call 0 "001010"), .own false (.register 0), .own false (call 1 "110"),
    .own false (.send 0), .own false (.register 1), .own false (.send 1),
    Link.arrive true requests 70 (by decide), Link.arrive true (requests.drop 70) 300 (by decide),
    .hand true, .own true .act, .hand true, .own true .act,
    .own true (.done (message 2 "110") solution), .own true (.done (message 1 "001010") solution),
    Link.arrive false replies 300 (by decide), .hand false, .own false .act, .own false .act,
    .own false .act, .hand false, .own false .act, .own false .act, .own false .act]

theorem sudoku_solved_two :
    let L := sudokuClasses.pool plain
    ∃ s, Reachable (machine L 0) (start L 0) s ∧ (s false).rpc.calls = 2 ∧
      ∃ bytes, L.ParseFromArray (L.object sudokuResponse_ new) bytes =
          (true, L.object sudokuResponse_ (Solve new)) ∧
        ∀ n < 2, ((s false).rpc.history.filterMap RpcEvent.action).filter (fun a => a.ofCall = some n) =
          [.parse n bytes, .run n, .free n] := by
  intro L
  have hex : ∃ s, Run (Link.machine (rpcProtobuf L) 0) (start L 0) (twoCalls L) s ∧
      (s false).rpc.calls = 2 ∧ (∀ x, ∀ i ∈ [0, 1], (s x).rpc.threads i = .idle) ∧
      ∀ x, (s x).incoming = [] ∧ (s x).inbox.length = 0 ∧ (s x).rpc.actions = [] ∧
        (s x).rpc.accepted = [] :=
    exists_run_of_exec _ (by decide +kernel)
  obtain ⟨s, hr, htwo, hidle, hquiet⟩ := hex
  have hprograms : ∀ l ∈ twoCalls L, Programs L l := by
    unfold twoCalls
    simp only [List.forall_mem_cons]
    refine ⟨⟨rfl, rfl, rfl, rfl, _, ?_, rfl⟩, trivial, ⟨rfl, rfl, rfl, rfl, _, ?_, rfl⟩, trivial,
      trivial, trivial, trivial, trivial, trivial, trivial, trivial, trivial, rfl, rfl, trivial,
      trivial, trivial, trivial, trivial, trivial, trivial, trivial, trivial, by simp⟩
    · decide +kernel
    · decide +kernel
  have hrun : Run (machine L 0) (start L 0) (twoCalls L) s := by
    refine hr.restrict ?_
    intro pre l post u hsplit _ _
    exact hprograms l (by rw [hsplit]; simp)
  have hq : Link.Quiet s := Link.quiet_of_run hr [0, 1] (by decide +kernel) hidle hquiet
  obtain ⟨bytes, hparsed, _, hactions⟩ := sudoku_solved (sudokuClasses.pool_lawful plain) plain_lawful
    plain_verbatim ⟨_, hrun⟩ (by rw [htwo]; decide)
  rw [htwo] at hactions
  exact ⟨s, ⟨_, hrun⟩, htwo, bytes, hparsed, hactions hq⟩

end MuduoNet.Sudoku
