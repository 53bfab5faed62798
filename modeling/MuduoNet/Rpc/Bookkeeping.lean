import MuduoNet.Rpc.End
import MuduoNet.Lib.Held

/-!
# The table of calls

What is outstanding is what the history says: making the entry of a call issues a ticket under its
id, and any response presents one. Below `2 ^ 64` calls no id is given twice, so the closure and
the response of a call are used for one response only, the first since its entry was made.
-/
namespace MuduoNet.Rpc

open Lib Lib.Outcome

namespace RpcEvent

def ticket : RpcEvent → Ticket Int64 OutstandingCall
  | registered id out _ => .issue id out
  | response message _ => .present message.id.toInt64
  | _ => .other

/-- The call whose entry is made. -/
def entered : RpcEvent → Option Nat
  | registered _ out _ => out.response
  | _ => none

def action : RpcEvent → Option Action
  | did a => some a
  | _ => none

/-- What the loop thread has to do after a message. -/
def causes : RpcEvent → List Action
  | response message out => RpcChannel.complete message out
  | request message error => RpcChannel.answer message error
  | _ => []

end RpcEvent

namespace RpcEnd

section

variable {conn : Nat} {s t : RpcEnd} {l : RpcLabel}

/-- What one step does. -/
inductive Happens (s : RpcEnd) : RpcEnd → Prop
  | call (thread : Nat) (service method bytes : List UInt8) (hasDone : Bool)
      (hidle : s.threads thread = .idle) : Happens s (s.call thread service method bytes hasDone)
  | register {thread : Nat} {id : Int64} {out : OutstandingCall} {message : RpcMessage}
      (hpc : s.threads thread = .counted id out message) :
      Happens s (s.register thread id out message)
  | send {thread : Nat} {message : RpcMessage} (hpc : s.threads thread = .entered message) :
      Happens s ((s.setThread thread .idle).log (.sent message))
  | response {message : RpcMessage} (htype : message.type = .RESPONSE) (hidle : s.actions = [])
      (hpresent : message.response.isSome ∨ message.error.isSome) :
      Happens s { s with
        channel := (s.channel.takeCall message.id.toInt64).2
        actions := RpcChannel.complete message (s.channel.takeCall message.id.toInt64).1
        history := s.history ++ [.response message (s.channel.takeCall message.id.toInt64).1] }
  | request {message : RpcMessage} (htype : message.type = .REQUEST) (hidle : s.actions = []) :
      Happens s { s with
        actions := RpcChannel.answer message (lookup s.channel.services_ message)
        history := s.history ++ [.request message (lookup s.channel.services_ message)] }
  | error (hidle : s.actions = []) : Happens s s
  | act {a : Action} {rest : List Action} (hactions : s.actions = a :: rest) :
      Happens s (({ s with actions := rest }.log (.did a)).perform a)
  | done {message : RpcMessage} (bytes : List UInt8) (hmem : message ∈ s.accepted) :
      Happens s ({ s with accepted := s.accepted.erase message }.log
        (.answered message (doneReply message.id.toInt64 bytes)))

theorem receive_happens {message : RpcMessage} (hidle : s.actions = [])
    (hs : s.receive conn message = .ok t) : Happens s t := by
  unfold receive at hs
  obtain ⟨⟨actions, channel⟩, hrpc, hs⟩ := bind_eq_ok hs
  cases hs
  unfold RpcChannel.onRpcMessage at hrpc
  obtain ⟨_, hrpc⟩ := demand_bind_eq_ok hrpc
  cases htype : message.type with
  | RESPONSE =>
    simp only [htype] at hrpc
    obtain ⟨hpresent, hrpc⟩ := demand_bind_eq_ok hrpc
    cases hrpc
    rw [seen, htype]
    exact .response htype hidle hpresent
  | REQUEST =>
    simp only [htype] at hrpc
    cases hrpc
    rw [seen, htype]
    exact .request htype hidle
  | ERROR =>
    simp only [htype] at hrpc
    cases hrpc
    rw [seen, htype]
    dsimp only
    rw [List.append_nil, ← hidle]
    exact .error hidle

theorem step_happens (he : (machine conn).enabled s l) (hs : (machine conn).step s l = .ok t) :
    Happens s t := by
  cases l with
  | call thread service method bytes hasDone =>
    cases hs
    exact .call thread service method bytes hasDone he
  | register thread =>
    obtain ⟨id, out, message, hpc⟩ := he
    simp only [machine, step, hpc] at hs
    cases hs
    exact .register hpc
  | send thread =>
    obtain ⟨message, hpc⟩ := he
    simp only [machine, step, hpc] at hs
    cases hs
    exact .send hpc
  | receive message => exact receive_happens he hs
  | act =>
    cases hactions : s.actions with
    | nil => exact absurd hactions he
    | cons a rest =>
      simp only [machine, step, hactions] at hs
      cases hs
      exact .act hactions
  | done message bytes =>
    cases hs
    exact .done bytes he

end

/-- The id of the `n`-th call. -/
def idOf (start : Int64) (n : Nat) : Int64 := start + Int64.ofNat (n + 1)

theorem idOf_inj {start : Int64} {m n : Nat} (hm : m < 2 ^ 64) (hn : n < 2 ^ 64)
    (h : idOf start m = idOf start n) : m = n := by
  unfold idOf at h
  rw [Int64.add_right_inj] at h
  have hnat := congrArg (fun x => x.toUInt64.toNat) h
  simp only [Int64.toUInt64_ofNat', UInt64.toNat_ofNat'] at hnat
  omega

/-- What a thread and the table keep of a call. -/
def Numbered (start : Int64) (calls : Nat) (id : Int64) (out : OutstandingCall)
    (message : RpcMessage) : Prop :=
  ∃ n, n < calls ∧ id = idOf start n ∧ out.response = some n ∧ (∀ d, out.done = some d → d = n) ∧
    message.type = .REQUEST ∧ message.id = id.toUInt64

theorem Numbered.mono {start id : Int64} {m n : Nat} {out : OutstandingCall} {message : RpcMessage}
    (h : Numbered start m id out message) (hle : m ≤ n) : Numbered start n id out message := by
  obtain ⟨k, hk, hrest⟩ := h
  exact ⟨k, Nat.lt_of_lt_of_le hk hle, hrest⟩

end RpcEnd

/-- The call whose id a thread has taken and not yet entered. -/
def CallPc.held : CallPc → Option Nat
  | .counted _ out _ => out.response
  | _ => none

namespace RpcEnd

def enteredCalls (s : RpcEnd) : List Nat := s.history.filterMap RpcEvent.entered

theorem enteredCalls_log (s : RpcEnd) (e : RpcEvent) :
    (s.log e).enteredCalls = s.enteredCalls ++ e.entered.toList :=
  filterMap_concat RpcEvent.entered s.history e

/-- The calls with an entry and those that threads are about to enter are different calls. -/
def Distinct (s : RpcEnd) : Prop :=
  ∃ l, Enumerates (fun thread => (s.threads thread).held) l ∧
    (s.enteredCalls ++ l.map Prod.snd).Nodup

structure Inv (start : Int64) (s : RpcEnd) : Prop where
  counter : s.channel.id_ = start + Int64.ofNat s.calls
  counted : ∀ thread id out message, s.threads thread = .counted id out message →
    Numbered start s.calls id out message
  registered : ∀ id out message, .registered id out message ∈ s.history →
    Numbered start s.calls id out message
  distinct : s.Distinct
  table : s.channel.outstandings_ = Ticket.outstanding (s.history.map RpcEvent.ticket)
  found : ∀ pre message out post, s.history = pre ++ .response message out :: post →
    out = (Ticket.outstanding (pre.map RpcEvent.ticket) message.id.toInt64).getD ⟨none, none⟩
  uses : s.history.filterMap RpcEvent.action ++ s.actions = s.history.flatMap RpcEvent.causes

section

variable {conn : Nat} {first : Int64} {s t : RpcEnd}

theorem Inv.start (conn : Nat) (first : Int64) (services : Option Services) :
    (start conn first services).Inv first where
  counter := by simp [RpcEnd.start]
  counted := by
    intro thread id out message h
    cases h
  registered := by simp [RpcEnd.start]
  distinct := ⟨[], Enumerates.nil, List.nodup_nil⟩
  table := rfl
  found := by simp [RpcEnd.start]
  uses := rfl

theorem takeCall_eq (c : RpcChannel) (id : Int64) :
    (c.takeCall id).1 = (c.outstandings_ id).getD ⟨none, none⟩ ∧
      (c.takeCall id).2 = { c with outstandings_ := Function.update c.outstandings_ id none } := by
  unfold RpcChannel.takeCall
  cases h : c.outstandings_ id with
  | some out => exact ⟨rfl, rfl⟩
  | none =>
    refine ⟨rfl, ?_⟩
    rw [← h, Function.update_eq_self]
    cases c
    simp only at h
    simp only [h]

theorem entered_of_other {e : RpcEvent} (h : e.ticket = .other) : e.entered = none := by
  cases e with
  | registered id out message => cases h
  | _ => rfl

/-- A step that enters no call and finds none. -/
theorem Inv.quietly (hi : s.Inv first) (es : List RpcEvent) (hchannel : t.channel = s.channel)
    (hcalls : t.calls = s.calls)
    (hcounted : ∀ thread id out message, t.threads thread = .counted id out message →
      s.threads thread = .counted id out message)
    (hheld : ∀ thread, (t.threads thread).held = (s.threads thread).held)
    (hhistory : t.history = s.history ++ es) (hquiet : ∀ e ∈ es, e.ticket = .other)
    (huses : es.filterMap RpcEvent.action ++ t.actions = s.actions ++ es.flatMap RpcEvent.causes) :
    t.Inv first where
  counter := by rw [hchannel, hcalls, hi.counter]
  counted thread id out message hpc := by
    rw [hcalls]
    exact hi.counted thread id out message (hcounted thread id out message hpc)
  registered id out message hmem := by
    rw [hhistory] at hmem
    rw [hcalls]
    rcases List.mem_append.mp hmem with hmem | hmem
    · exact hi.registered id out message hmem
    · cases hquiet _ hmem
  distinct := by
    obtain ⟨l, hl, hnodup⟩ := hi.distinct
    refine ⟨l, ?_, ?_⟩
    · simpa only [hheld] using hl
    · have hnone : es.filterMap RpcEvent.entered = [] :=
        List.filterMap_eq_nil_iff.mpr fun e he => entered_of_other (hquiet e he)
      rw [enteredCalls, hhistory, List.filterMap_append, hnone, List.append_nil]
      exact hnodup
  table := by
    rw [hchannel, hi.table, hhistory, List.map_append, Ticket.outstanding_append_other]
    intro k hk
    obtain ⟨e, he, rfl⟩ := List.mem_map.mp hk
    exact hquiet e he
  found pre message out post h := by
    rw [hhistory] at h
    have hnew : RpcEvent.response message out ∉ es := by
      intro hmem
      cases hquiet _ hmem
    obtain ⟨mid, hold⟩ := append_eq_split hnew h
    exact hi.found pre message out mid hold
  uses := by
    rw [hhistory, List.filterMap_append, List.append_assoc, huses, ← List.append_assoc, hi.uses,
      List.flatMap_append]

theorem held_setThread (s : RpcEnd) (thread : Nat) (pc : CallPc) :
    (fun i => ((s.setThread thread pc).threads i).held) =
      Function.update (fun i => (s.threads i).held) thread pc.held := by
  funext i
  by_cases hi : i = thread <;> simp [setThread, Function.update, hi]

theorem Inv.lt_calls (hi : s.Inv first) {l : List (Nat × Nat)}
    (hl : Enumerates (fun thread => (s.threads thread).held) l) {n : Nat}
    (hn : n ∈ s.enteredCalls ++ l.map Prod.snd) : n < s.calls := by
  rcases List.mem_append.mp hn with hn | hn
  · obtain ⟨e, he, hen⟩ := List.mem_filterMap.mp hn
    cases e with
    | registered id out message =>
      obtain ⟨m, hm, _, hout, _⟩ := hi.registered id out message he
      obtain rfl := Option.some.inj (hout.symm.trans hen)
      exact hm
    | _ => cases hen
  · obtain ⟨⟨thread, m⟩, hmem, rfl⟩ := List.mem_map.mp hn
    have hheld := (hl.mem thread m).mp hmem
    cases hpc : s.threads thread with
    | counted id out message =>
      obtain ⟨k, hk, _, hout, _⟩ := hi.counted thread id out message hpc
      rw [hpc] at hheld
      obtain rfl := Option.some.inj (hout.symm.trans hheld)
      exact hk
    | _ =>
      rw [hpc] at hheld
      cases hheld

theorem Inv.call (hi : s.Inv first) {thread : Nat} (hidle : s.threads thread = .idle)
    (service method bytes : List UInt8) (hasDone : Bool) :
    (s.call thread service method bytes hasDone).Inv first := by
  have hid : s.channel.id_ + 1 = idOf first s.calls := by
    rw [hi.counter, idOf, Int64.ofNat_add, Int64.add_assoc]
    rfl
  constructor
  · exact hid
  · intro i id out message hpc
    by_cases h : i = thread
    · subst h
      have hnew : CallPc.counted (s.channel.id_ + 1) (s.newCall hasDone)
          (request (s.channel.id_ + 1) service method bytes) = .counted id out message := by
        simpa [RpcEnd.call, RpcChannel.incrementAndGet, setThread] using hpc
      obtain ⟨rfl, rfl, rfl⟩ := CallPc.counted.inj hnew
      refine ⟨s.calls, Nat.lt_succ_self _, hid, rfl, ?_, rfl, rfl⟩
      intro d hd
      cases hasDone
      · cases hd
      · exact (Option.some.inj hd).symm
    · have hold : s.threads i = .counted id out message := by
        simpa [RpcEnd.call, setThread, h] using hpc
      exact (hi.counted i id out message hold).mono (Nat.le_succ _)
  · intro id out message hmem
    exact (hi.registered id out message hmem).mono (Nat.le_succ _)
  · obtain ⟨l, hl, hnodup⟩ := hi.distinct
    obtain ⟨l', hset, hl'⟩ := hl.set thread (some s.calls)
    refine ⟨l', ?_, ?_⟩
    · have hheld := held_setThread s thread (.counted (s.channel.id_ + 1) (s.newCall hasDone)
        (request (s.channel.id_ + 1) service method bytes))
      exact hheld ▸ hl'
    · have hperm : (s.enteredCalls ++ l'.map Prod.snd).Perm
          (s.calls :: (s.enteredCalls ++ l.map Prod.snd)) := by
        rw [hidle] at hset
        exact (hset.append_left s.enteredCalls).trans List.perm_middle
      have hnew : s.calls ∉ s.enteredCalls ++ l.map Prod.snd := by
        intro hmem
        exact Nat.lt_irrefl _ (hi.lt_calls hl hmem)
      exact hperm.nodup_iff.mpr (List.nodup_cons.mpr ⟨hnew, hnodup⟩)
  · exact hi.table
  · exact hi.found
  · exact hi.uses

theorem Inv.register (hi : s.Inv first) {thread : Nat} {id : Int64} {out : OutstandingCall}
    {message : RpcMessage} (hpc : s.threads thread = .counted id out message) :
    (s.register thread id out message).Inv first := by
  have hnum := hi.counted thread id out message hpc
  constructor
  · exact hi.counter
  · intro i id' out' message' hpc'
    by_cases h : i = thread
    · subst h
      simp [RpcEnd.register, log, setThread] at hpc'
    · have hold : s.threads i = .counted id' out' message' := by
        simpa [RpcEnd.register, log, setThread, h] using hpc'
      exact hi.counted i id' out' message' hold
  · intro id' out' message' hmem
    rcases List.mem_append.mp hmem with hmem | hmem
    · exact hi.registered id' out' message' hmem
    · obtain ⟨rfl, rfl, rfl⟩ := RpcEvent.registered.inj (List.mem_singleton.mp hmem)
      exact hnum
  · obtain ⟨n, _, _, hout, _⟩ := hnum
    obtain ⟨l, hl, hnodup⟩ := hi.distinct
    obtain ⟨l', hset, hl'⟩ := hl.set thread none
    refine ⟨l', ?_, ?_⟩
    · have hheld := held_setThread s thread (.entered message)
      exact hheld ▸ hl'
    · have hn : (s.threads thread).held = some n := by
        rw [hpc]
        exact hout
      rw [hn] at hset
      have hentered : (s.register thread id out message).enteredCalls = s.enteredCalls ++ [n] := by
        rw [← Option.toList_some, ← hout]
        exact enteredCalls_log _ _
      have hperm : (s.enteredCalls ++ [n] ++ l'.map Prod.snd).Perm
          (s.enteredCalls ++ l.map Prod.snd) := by
        rw [List.append_assoc]
        exact hset.append_left s.enteredCalls
      rw [hentered]
      exact hperm.nodup_iff.mpr hnodup
  · show Function.update s.channel.outstandings_ id (some out) = _
    rw [hi.table, RpcEnd.register, log, List.map_append, List.map_singleton, Ticket.outstanding_concat]
    rfl
  · intro pre message' out' post h
    rcases concat_eq_split h with ⟨_, hnew⟩ | ⟨mid, hold⟩
    · cases hnew
    · exact hi.found pre message' out' mid hold
  · show (s.history ++ [_]).filterMap _ ++ s.actions = (s.history ++ [_]).flatMap _
    rw [List.filterMap_append, List.flatMap_append, ← hi.uses]
    simp [RpcEvent.action, RpcEvent.causes]

theorem Inv.response (hi : s.Inv first) {message : RpcMessage} (hidle : s.actions = []) :
    Inv first { s with
        channel := (s.channel.takeCall message.id.toInt64).2
        actions := RpcChannel.complete message (s.channel.takeCall message.id.toInt64).1
        history := s.history ++ [.response message (s.channel.takeCall message.id.toInt64).1] } := by
  obtain ⟨hfst, hsnd⟩ := takeCall_eq s.channel message.id.toInt64
  constructor
  · rw [hsnd]
    exact hi.counter
  · exact hi.counted
  · intro id out message' hmem
    rcases List.mem_append.mp hmem with hmem | hmem
    · exact hi.registered id out message' hmem
    · cases List.mem_singleton.mp hmem
  · obtain ⟨l, hl, hnodup⟩ := hi.distinct
    refine ⟨l, hl, ?_⟩
    rw [enteredCalls, List.filterMap_append, List.filterMap_cons_none (by rfl), List.filterMap_nil,
      List.append_nil]
    exact hnodup
  · rw [hsnd, hi.table, List.map_append, List.map_singleton, Ticket.outstanding_concat]
    rfl
  · intro pre message' out' post h
    rcases concat_eq_split h with ⟨rfl, hnew⟩ | ⟨mid, hold⟩
    · obtain ⟨rfl, rfl⟩ := RpcEvent.response.inj hnew
      rw [hfst, hi.table]
    · exact hi.found pre message' out' mid hold
  · have huses := hi.uses
    rw [hidle, List.append_nil] at huses
    dsimp only
    rw [List.filterMap_append, List.flatMap_append, huses]
    simp [RpcEvent.action, RpcEvent.causes]

/-- What an action does besides. -/
theorem perform_eq (s : RpcEnd) (a : Action) : ∃ es, (∀ e ∈ es, ∃ q r, e = .answered q r) ∧
    (s.perform a).channel = s.channel ∧ (s.perform a).calls = s.calls ∧
      (s.perform a).threads = s.threads ∧ (s.perform a).actions = s.actions ∧
      (s.perform a).history = s.history ++ es := by
  cases a with
  | reject message error =>
    refine ⟨[.answered message (errorReply message.id error)], ?_, rfl, rfl, rfl, rfl, rfl⟩
    intro e he
    exact ⟨_, _, List.mem_singleton.mp he⟩
  | _ => exact ⟨[], by simp, rfl, rfl, rfl, rfl, by simp [perform]⟩

theorem Inv.act (hi : s.Inv first) {a : Action} {rest : List Action} (hactions : s.actions = a :: rest) :
    (({ s with actions := rest }.log (.did a)).perform a).Inv first := by
  obtain ⟨es, hes, hchannel, hcalls, hthreads, hrest, hhistory⟩ :=
    perform_eq ({ s with actions := rest }.log (.did a)) a
  have hquiet : ∀ e ∈ es, e.action = none ∧ e.causes = [] ∧ e.ticket = .other := by
    intro e he
    obtain ⟨q, r, rfl⟩ := hes e he
    exact ⟨rfl, rfl, rfl⟩
  refine hi.quietly (.did a :: es) hchannel hcalls ?_ ?_ ?_ ?_ ?_
  · intro thread id out message hpc
    rwa [hthreads] at hpc
  · intro thread
    rw [hthreads]
    rfl
  · rw [hhistory, log, List.append_assoc]
    rfl
  · intro e he
    rcases List.mem_cons.mp he with rfl | he
    · rfl
    · exact (hquiet e he).2.2
  · have haction : es.filterMap RpcEvent.action = [] :=
      List.filterMap_eq_nil_iff.mpr fun e he => (hquiet e he).1
    have hcauses : es.flatMap RpcEvent.causes = [] :=
      List.flatMap_eq_nil_iff.mpr fun e he => (hquiet e he).2.1
    rw [hrest, hactions, List.filterMap_cons, haction, List.flatMap_cons, hcauses]
    simp [log, RpcEvent.action, RpcEvent.causes]

theorem Happens.inv (h : Happens s t) (hi : s.Inv first) : t.Inv first := by
  cases h with
  | call thread service method bytes hasDone hidle => exact hi.call hidle service method bytes hasDone
  | register hpc => exact hi.register hpc
  | @send thread message hpc =>
    refine hi.quietly [.sent message] rfl rfl ?_ ?_ rfl (by simp [RpcEvent.ticket]) ?_
    · intro i id out message' hpc'
      by_cases h : i = thread
      · subst h
        simp [log, setThread] at hpc'
      · simpa [log, setThread, h] using hpc'
    · intro i
      by_cases h : i = thread
      · subst h
        simp [log, setThread, hpc, CallPc.held]
      · simp [log, setThread, h]
    · simp [RpcEvent.action, RpcEvent.causes, log, setThread]
  | response htype hidle hpresent => exact hi.response hidle
  | @request message htype hidle =>
    refine hi.quietly [.request message (lookup s.channel.services_ message)] rfl rfl
      (fun _ _ _ _ h => h) (fun _ => rfl) rfl (by simp [RpcEvent.ticket]) ?_
    simp [RpcEvent.action, RpcEvent.causes, hidle]
  | error hidle => exact hi
  | act hactions => exact hi.act hactions
  | @done message bytes hmem =>
    refine hi.quietly [.answered message (doneReply message.id.toInt64 bytes)] rfl rfl
      (fun _ _ _ _ h => h) (fun _ => rfl) rfl (by simp [RpcEvent.ticket]) ?_
    simp [RpcEvent.action, RpcEvent.causes, log]

theorem reachable_inv {services : Option Services}
    (h : Reachable (machine conn) (start conn first services) s) : s.Inv first :=
  h.invariant (fun _ _ _ hi he hs => (step_happens he hs).inv hi) (Inv.start conn first services)

end

end RpcEnd

end MuduoNet.Rpc
