import MuduoNet.Tcp.Peers

/-!
# Programs over a pair of connections

For any callbacks at both ends the two streams are reliable. A server that echoes sends back what
it reads; one that greets and shuts down has its whole greeting read before the end of the stream.
-/
namespace MuduoNet

open Lib Lib.Outcome TcpConnection

namespace Application

/-- `onMessage` of `test9.cc`: what has arrived is sent back. -/
def echo : Application (List UInt8) where
  onConnection := .ok []
  onMessage buf := .ok ([buf.retrieveAsString.1], buf.retrieveAsString.2)
  respond message := .ok [.send message]

/-- `test10.cc`: two messages, unless they are empty, and no more. -/
def greeter (message1 message2 : List UInt8) : Application Unit where
  onConnection := .ok ((if message1 ≠ [] then [.send message1] else []) ++
    (if message2 ≠ [] then [.send message2] else []) ++ [.shutdown])
  onMessage buf := .ok ([], buf.retrieveAll)
  respond _ := .ok []

/-- Each string read has been echoed, and none is left. -/
theorem echo_reads : echo.Reads fun received calls rest => calls.flatten = received ∧ rest = [] where
  nil := ⟨rfl, rfl⟩
  next := by
    rintro received calls rest bytes buf calls' buf' ⟨hcalls, rfl⟩ hwf hread h
    obtain ⟨rfl, rfl⟩ := Prod.mk.inj (Except.ok.inj h)
    refine ⟨Buffer.retrieveAll_wf hwf, ?_, Buffer.readable_retrieveAll buf⟩
    show (calls ++ [buf.readable]).flatten = _
    rw [hread, List.flatten_append, hcalls]
    simp

theorem greeter_reads (message1 message2 : List UInt8) :
    (greeter message1 message2).Reads fun _ calls rest => calls = [] ∧ rest = [] where
  nil := ⟨rfl, rfl⟩
  next := by
    rintro received calls rest bytes buf calls' buf' ⟨rfl, rfl⟩ hwf hread h
    obtain ⟨rfl, rfl⟩ := Prod.mk.inj (Except.ok.inj h)
    exact ⟨Buffer.retrieveAll_wf hwf, rfl, Buffer.readable_retrieveAll buf⟩

section

variable {α β : Type}

/-- The callbacks of two ends. -/
def pair (a : Application α) (b : Application β) : ∀ x, Application (cond x α β)
  | true => a
  | false => b

def both (R : List UInt8 → List α → List UInt8 → Prop) (S : List UInt8 → List β → List UInt8 → Prop) :
    ∀ x, List UInt8 → List (cond x α β) → List UInt8 → Prop
  | true => R
  | false => S

theorem Reads.pair {a : Application α} {b : Application β}
    {R : List UInt8 → List α → List UInt8 → Prop} {S : List UInt8 → List β → List UInt8 → Prop}
    (ha : a.Reads R) (hb : b.Reads S) : ∀ x, (pair a b x).Reads (both R S x)
  | true => ha
  | false => hb

end

end Application

namespace Session

variable {s : Session (List UInt8)}

theorem echo_commands {calls : List (List UInt8)} {responses : List (List Command)}
    (h : calls.mapM Application.echo.respond = .ok responses) :
    spoken responses.flatten = calls.flatten := by
  induction calls generalizing responses with
  | nil =>
    obtain rfl := Except.ok.inj h
    rfl
  | cons message calls ih =>
    rw [List.mapM_cons] at h
    obtain ⟨commands, hcommands, h⟩ := bind_eq_ok h
    obtain ⟨later, hlater, h⟩ := bind_eq_ok h
    obtain rfl := Except.ok.inj hcommands
    obtain rfl := Except.ok.inj h
    exact congrArg (message ++ ·) (ih hlater)

/-- What the server echoes is what it has read, in order. -/
theorem Inv.echoed (hi : Inv .echo (fun received calls rest => calls.flatten = received ∧ rest = []) s) :
    spoken (s.done ++ s.todo) = s.received := by
  rcases hi.issued with hfresh | ⟨_, opening, responses, hopening, hresponses, hissued⟩
  · rw [hfresh.done, hfresh.todo, hfresh.received]
    rfl
  · obtain rfl := Except.ok.inj hopening
    rw [hissued, List.nil_append, echo_commands hresponses, hi.reads.1]

/-- A greeting is complete once its shutdown has been done. -/
theorem Inv.greeted {message1 message2 : List UInt8} {s : Session Unit}
    (hi : Inv (.greeter message1 message2) (fun _ calls rest => calls = [] ∧ rest = []) s)
    (hshutdown : .shutdown ∈ s.done) : spoken s.done = message1 ++ message2 := by
  rcases hi.issued with hfresh | ⟨_, opening, responses, hopening, hresponses, hissued⟩
  · rw [hfresh.done] at hshutdown
    cases hshutdown
  · rw [hi.reads.1] at hresponses
    obtain rfl := Except.ok.inj hresponses
    rw [← spoken_append_of_mem hshutdown s.todo, hissued, ← Except.ok.inj hopening]
    by_cases h1 : message1 = [] <;> by_cases h2 : message2 = [] <;> simp [h1, h2, spoken]

end Session

namespace Peers

variable {ε : Bool → Type} {app : ∀ x, Application (ε x)}
  {R : ∀ x, List UInt8 → List (ε x) → List UInt8 → Prop} {sockfd : Bool → Int}

/-- Whatever the callbacks do and however the kernel cuts the streams: in each direction the peer
has read a front part of what was sent before the first shutdown; what it has not read is buffered
or on its way; and if it finds the end of an unbroken stream while the sender has not closed, it
has read all that was sent before the shutdown. -/
theorem streams_reliable (happ : ∀ x, (app x).Reads (R x)) {s : Peers ε}
    (h : Reachable (machine app) (start sockfd) s) (x : Bool) :
    (s.side !x).received <+: spoken (s.side x).done ∧
      (s.broken = false → (s.side !x).stage ≠ .destroyed →
        spoken (s.side x).done =
          (s.side !x).received ++ s.incoming (!x) ++ (s.side x).tcp.outputBuffer_.readable) ∧
      (s.broken = false → s.Enabled (.own (!x) (.read (.delivered []))) →
        (s.side x).stage ≠ .destroyed →
        (s.side !x).received = spoken (s.side x).done ∧ .shutdown ∈ (s.side x).done) := by
  have hi := reachable_inv happ h
  exact ⟨(hi.said x).1, (hi.said x).2, fun hbroken heof halive => hi.ended hbroken heof halive⟩

/-- The half-close waits until the last byte of three is written. -/
def greetingRun : List PeersLabel :=
  [.own true .establish, .own false .establish, .own true (.act (.wrote 1)),
    .own true (.act (.wrote 0)), .own true (.act (.wrote 0)), .own false (.read (.delivered [1])),
    .own false (.act (.wrote 1)), .own true (.read (.delivered [1])), .own true (.write (.wrote 2)),
    .own false (.read (.delivered [2, 3])), .own false (.act (.failed 11)),
    .own false (.write (.wrote 1))]

theorem streams_reliable_run :
    let app := Application.pair (.greeter [1, 2] [3]) .echo
    ∃ s : Peers (cond · Unit (List UInt8)), Run (machine app) (start fun _ => 7) greetingRun s ∧
      (s.side false).received = spoken (s.side true).done ∧
      .shutdown ∈ (s.side true).done := by
  intro app
  obtain ⟨s, hr, hbroken, heof, halive⟩ : ∃ s : Peers (cond · Unit (List UInt8)),
      Run (machine app) (start fun _ => 7) greetingRun s ∧ s.broken = false ∧
        s.Enabled (.own false (.read (.delivered []))) ∧ (s.side true).stage ≠ .destroyed :=
    exists_run_of_exec _ (by decide +kernel)
  have h := streams_reliable ((Application.greeter_reads [1, 2] [3]).pair Application.echo_reads)
    ⟨greetingRun, hr⟩ true
  exact ⟨s, hr, h.2.2 hbroken heof halive⟩

/-- Behind an echoing server the bytes that come back are those that were sent, in order; once
nothing is buffered or on its way, all of them. -/
theorem echo_returns {α : Type} {client : Application α}
    {R : List UInt8 → List α → List UInt8 → Prop} (happ : client.Reads R)
    {s : Peers (cond · α (List UInt8))}
    (h : Reachable (machine (Application.pair client .echo)) (start sockfd) s) :
    (s.side true).received <+: spoken (s.side true).done ∧
      (s.broken = false → (∀ x, (s.side x).stage ≠ .destroyed) → (∀ x, s.incoming x = []) →
        (∀ x, (s.side x).tcp.outputBuffer_.readable = []) → (s.side false).todo = [] →
        (s.side true).received = spoken (s.side true).done) := by
  have hi := reachable_inv (happ.pair Application.echo_reads) h
  have hechoed := Session.Inv.echoed (hi.sides false)
  have hback := hi.said false
  have hforth := hi.said true
  constructor
  · apply hback.1.trans
    apply (spoken_front _ (s.side false).todo).trans
    rw [hechoed]
    exact hforth.1
  · intro hbroken halive hway hbuffered htodo
    rw [htodo, List.append_nil] at hechoed
    have hb := hback.2 hbroken (halive true)
    have hf := hforth.2 hbroken (halive false)
    rw [hway, hbuffered, List.append_nil, List.append_nil] at hb hf
    exact hb.symm.trans (hechoed.trans hf.symm)

theorem echo_returns_run :
    let app := Application.pair (.greeter [1, 2] [3]) .echo
    let ls := greetingRun ++ [.own false (.write (.wrote 1)), .own true (.read (.delivered [2, 3]))]
    ∃ s : Peers (cond · Unit (List UInt8)), Run (machine app) (start fun _ => 7) ls s ∧
      (s.side true).received = spoken (s.side true).done := by
  intro app ls
  obtain ⟨s, hr, hbroken, ⟨h1, h2⟩, ⟨h3, h4⟩, ⟨h5, h6⟩, htodo⟩ :
      ∃ s : Peers (cond · Unit (List UInt8)), Run (machine app) (start fun _ => 7) ls s ∧
        s.broken = false ∧ ((s.side true).stage ≠ .destroyed ∧ (s.side false).stage ≠ .destroyed) ∧
        (s.incoming true = [] ∧ s.incoming false = []) ∧
        ((s.side true).tcp.outputBuffer_.readable = [] ∧
          (s.side false).tcp.outputBuffer_.readable = []) ∧ (s.side false).todo = [] :=
    exists_run_of_exec _ (by decide +kernel)
  have h := echo_returns (Application.greeter_reads [1, 2] [3]) ⟨ls, hr⟩
  exact ⟨s, hr, h.2 hbroken (Bool.forall_bool.mpr ⟨h2, h1⟩) (Bool.forall_bool.mpr ⟨h4, h3⟩)
    (Bool.forall_bool.mpr ⟨h6, h5⟩) htodo⟩

/-- A greeting that is followed by a shutdown is read to its end before the end of the stream. -/
theorem greeting_delivered {β : Type} {reader : Application β}
    {S : List UInt8 → List β → List UInt8 → Prop} (happ : reader.Reads S)
    {message1 message2 : List UInt8} {s : Peers (cond · Unit β)}
    (h : Reachable (machine (Application.pair (.greeter message1 message2) reader)) (start sockfd) s)
    (hbroken : s.broken = false) (heof : s.Enabled (.own false (.read (.delivered []))))
    (halive : (s.side true).stage ≠ .destroyed) :
    (s.side false).received = message1 ++ message2 := by
  have hi := reachable_inv ((Application.greeter_reads message1 message2).pair happ) h
  obtain ⟨hall, hshutdown⟩ := hi.ended (x := true) hbroken heof halive
  have hsaid := Session.Inv.greeted (hi.sides true) hshutdown
  exact hall.trans hsaid

theorem greeting_delivered_run :
    let app := Application.pair (.greeter [1, 2] [3]) .echo
    ∃ s : Peers (cond · Unit (List UInt8)), Run (machine app) (start fun _ => 7) greetingRun s ∧
      (s.side false).received = [1, 2] ++ [3] := by
  intro app
  obtain ⟨s, hr, hbroken, heof, halive⟩ : ∃ s : Peers (cond · Unit (List UInt8)),
      Run (machine app) (start fun _ => 7) greetingRun s ∧ s.broken = false ∧
        s.Enabled (.own false (.read (.delivered []))) ∧ (s.side true).stage ≠ .destroyed :=
    exists_run_of_exec _ (by decide +kernel)
  exact ⟨s, hr, greeting_delivered Application.echo_reads ⟨greetingRun, hr⟩ hbroken heof halive⟩

end Peers

end MuduoNet
