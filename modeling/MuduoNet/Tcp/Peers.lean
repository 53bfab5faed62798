import MuduoNet.Tcp.Commands
import Mathlib.Logic.Function.Basic

/-!
# Two connections and the streams between them

Each end is a connection with its callbacks. The bytes that `::write` accepts at one end are on
their way to the other, where `readv` delivers any number of them; it reports the end of the stream
only when all have been read and the peer has closed its direction. A reset loses what is on its
way.
-/
namespace MuduoNet

open Lib Lib.Outcome TcpConnection

structure Peers (ε : Bool → Type) where
  side : ∀ x, Session (ε x)
  /-- The bytes on their way to this side. -/
  incoming : Bool → List UInt8
  /-- Behind them the stream to this side ends. -/
  fin : Bool → Bool
  /-- The connection has been reset. -/
  broken : Bool

inductive PeersLabel
  | own (x : Bool) (l : SessionLabel)
  | reset

namespace Peers

variable {ε : Bool → Type}

def start (sockfd : Bool → Int) : Peers ε :=
  ⟨fun x => .start (sockfd x), fun _ => [], fun _ => false, false⟩

/-- What the kernel can deliver to this side. -/
def Delivers (s : Peers ε) (x : Bool) : SessionLabel → Prop
  | .read (.delivered []) => s.broken = true ∨ s.incoming x = [] ∧ s.fin x = true
  | .read (.delivered bytes) => bytes <+: s.incoming x
  | _ => True

def Enabled (s : Peers ε) : PeersLabel → Prop
  | .own x l => (s.side x).Enabled l ∧ s.Delivers x l
  | .reset => True

/-- The bytes that `::write` has accepted from `c` to `d`. -/
def sent (c d : TcpConnection) : List UInt8 := accepted (d.trace.drop c.trace.length)

/-- The streams after a step of the side `x`, which is `d` now. -/
def transfer (s : Peers ε) (x : Bool) (l : SessionLabel) (d : Session (ε x)) : Peers ε :=
  let left := (s.incoming x).drop l.delivered.length
  let arriving := s.incoming (!x) ++ sent (s.side x).tcp d.tcp
  { s with
    side := Function.update s.side x d
    incoming := fun y =>
      if s.broken then []
      else if y = x then (if d.stage = .destroyed then [] else left)
      else (if (s.side (!x)).stage = .destroyed then [] else arriving)
    fin := fun y =>
      s.fin y || (y != x && (decide (.shutdownWrite ∈ d.tcp.trace) || decide (d.stage = .destroyed))) }

def step (app : ∀ x, Application (ε x)) (s : Peers ε) : PeersLabel → Except Fault (Peers ε)
  | .own x l => do
    let d ← (s.side x).step (app x) l
    return s.transfer x l d
  | .reset => .ok { s with incoming := fun _ => [], broken := true }

def machine (app : ∀ x, Application (ε x)) : Machine (Peers ε) PeersLabel Fault where
  enabled := Enabled
  step := step app

instance (s : Peers ε) (x : Bool) (l : SessionLabel) : Decidable (s.Delivers x l) :=
  match l with
  | .read (.delivered []) =>
    inferInstanceAs (Decidable (s.broken = true ∨ s.incoming x = [] ∧ s.fin x = true))
  | .read (.delivered (b :: bytes)) => inferInstanceAs (Decidable (b :: bytes <+: s.incoming x))
  | .read (.failed _) | .establish | .act _ | .write _ | .error | .hangUp | .destroy => isTrue trivial

instance (s : Peers ε) (l : PeersLabel) : Decidable (s.Enabled l) :=
  match l with
  | .own x l => inferInstanceAs (Decidable ((s.side x).Enabled l ∧ s.Delivers x l))
  | .reset => isTrue trivial

instance (app : ∀ x, Application (ε x)) (s : Peers ε) (l : PeersLabel) :
    Decidable ((machine app).enabled s l) :=
  inferInstanceAs (Decidable (s.Enabled l))

variable {app : ∀ x, Application (ε x)} {R : ∀ x, List UInt8 → List (ε x) → List UInt8 → Prop}
  {s t : Peers ε} {x y : Bool} {l : PeersLabel}

/-- The stream from `x` to the other side. -/
structure Stream (s : Peers ε) (x : Bool) : Prop where
  /-- What has been read is what was written first. -/
  ordered : (s.side !x).received <+: accepted (s.side x).tcp.trace
  /-- The rest is on its way. -/
  flow : s.broken = false → (s.side !x).stage ≠ .destroyed →
    accepted (s.side x).tcp.trace = (s.side !x).received ++ s.incoming !x
  fin : s.fin (!x) = true →
    .shutdownWrite ∈ (s.side x).tcp.trace ∨ (s.side x).stage = .destroyed
  lost : s.broken = true → s.incoming (!x) = []

theorem accepted_sent {c d : TcpConnection} (h : c.trace <+: d.trace) :
    accepted d.trace = accepted c.trace ++ sent c d := by
  obtain ⟨es, hes⟩ := h
  unfold sent
  rw [← hes, List.drop_left, accepted_append]

/-- The stream behind a step at its source. -/
theorem Stream.source (h : s.Stream x) {l : SessionLabel} {d : Session (ε x)}
    (hg : Session.Grows l (s.side x) d) (hstage : (s.side x).stage ≠ .destroyed) :
    (s.transfer x l d).Stream x := by
  have hx : (s.transfer x l d).side x = d := Function.update_self ..
  have hy : (s.transfer x l d).side (!x) = s.side (!x) := Function.update_of_ne (by simp) ..
  have haccepted := accepted_sent hg.trace
  constructor
  · rw [hx, hy, haccepted]
    exact h.ordered.trans (List.prefix_append _ _)
  · intro hbroken halive
    rw [hx, hy] at *
    have hflow := h.flow hbroken halive
    have hincoming : (s.transfer x l d).incoming (!x) = s.incoming (!x) ++ sent (s.side x).tcp d.tcp := by
      have hbroken' : s.broken = false := hbroken
      simp [transfer, hbroken', halive]
    rw [hincoming, haccepted, hflow, List.append_assoc]
  · rw [hx]
    intro hfin
    have hfin' : s.fin (!x) = true ∨ .shutdownWrite ∈ d.tcp.trace ∨ d.stage = .destroyed := by
      simpa [transfer] using hfin
    rcases hfin' with hfin | hnew
    · rcases h.fin hfin with hmem | hdestroyed
      · exact .inl (hg.trace.subset hmem)
      · exact absurd hdestroyed hstage
    · exact hnew
  · intro hbroken
    have hbroken' : s.broken = true := hbroken
    simp [transfer, hbroken']

/-- The stream behind a step at its destination. -/
theorem Stream.destination (h : s.Stream x) {l : SessionLabel} {d : Session (ε !x)}
    (hg : Session.Grows l (s.side !x) d) (hstage : (s.side !x).stage ≠ .destroyed)
    (hdelivers : s.Delivers (!x) l) : (s.transfer (!x) l d).Stream x := by
  have hx : (s.transfer (!x) l d).side x = s.side x := Function.update_of_ne (by simp) ..
  have hy : (s.transfer (!x) l d).side (!x) = d := Function.update_self ..
  have hbytes : l.delivered <+: s.incoming (!x) := by
    unfold Delivers at hdelivers
    split at hdelivers
    · exact List.nil_prefix
    · exact hdelivers
    · unfold SessionLabel.delivered
      split
      · simp_all
      · exact List.nil_prefix
  have hread : s.broken = true → l.delivered = [] := by
    intro hbroken
    rw [h.lost hbroken] at hbytes
    exact List.prefix_nil.mp hbytes
  obtain ⟨rest, hrest⟩ := hbytes
  constructor
  · rw [hx, hy, hg.received]
    cases hbroken : s.broken with
    | true =>
      rw [hread hbroken, List.append_nil]
      exact h.ordered
    | false =>
      rw [h.flow hbroken hstage, ← hrest, ← List.append_assoc]
      exact List.prefix_append _ _
  · intro hbroken halive
    rw [hx, hy] at *
    have hbroken' : s.broken = false := hbroken
    have hincoming : (s.transfer (!x) l d).incoming (!x) = rest := by
      simp [transfer, hbroken', halive, ← hrest]
    rw [hincoming, hg.received, h.flow hbroken' hstage, ← hrest, List.append_assoc]
  · rw [hx]
    intro hfin
    apply h.fin
    simpa [transfer] using hfin
  · intro hbroken
    have hbroken' : s.broken = true := hbroken
    simp [transfer, hbroken']

structure Inv (app : ∀ x, Application (ε x))
    (R : ∀ x, List UInt8 → List (ε x) → List UInt8 → Prop) (s : Peers ε) : Prop where
  sides : ∀ x, Session.Inv (app x) (R x) (s.side x)
  streams : ∀ x, s.Stream x

theorem stage_ne {s : Session (ε x)} {l : SessionLabel} (h : s.Enabled l) :
    s.stage ≠ .destroyed := by
  have hactive : s.stage = .active → s.stage ≠ .destroyed := by simp +contextual
  cases l with
  | establish => exact hactive h.1
  | act w => exact hactive h.1
  | read r => exact hactive h.1.1
  | write w => exact hactive h.1.1
  | error => exact hactive h.1
  | hangUp => exact hactive h.1
  | destroy =>
    have hclosing : s.stage = .closing := h
    simp [hclosing]

theorem step_inv (happ : ∀ x, (app x).Reads (R x)) (hi : Inv app R s)
    (he : (machine app).enabled s l) (hs : (machine app).step s l = .ok t) : Inv app R t := by
  cases l with
  | reset =>
    obtain rfl := Except.ok.inj hs
    refine ⟨hi.sides, ?_⟩
    intro x
    refine ⟨(hi.streams x).ordered, ?_, (hi.streams x).fin, fun _ => rfl⟩
    intro hbroken
    cases hbroken
  | own y l =>
    obtain ⟨he, hdelivers⟩ := he
    obtain ⟨d, hd, hs⟩ := bind_eq_ok hs
    obtain rfl := Except.ok.inj hs
    have hgrows := Session.step_grows (hi.sides y) he hd
    have hstage := stage_ne he
    constructor
    · intro x
      by_cases hxy : x = y
      · subst hxy
        rw [show (s.transfer x l d).side x = d from Function.update_self ..]
        exact Session.step_inv (happ x) (hi.sides x) he hd
      · rw [show (s.transfer y l d).side x = s.side x from Function.update_of_ne hxy ..]
        exact hi.sides x
    · intro x
      by_cases hxy : x = y
      · subst hxy
        exact (hi.streams x).source hgrows hstage
      · obtain rfl : y = !x := Bool.eq_not_of_ne (Ne.symm hxy)
        exact (hi.streams x).destination hgrows hstage hdelivers

theorem reachable_inv (happ : ∀ x, (app x).Reads (R x)) {sockfd : Bool → Int}
    (h : Reachable (machine app) (start sockfd) s) : Inv app R s := by
  refine h.invariant (fun _ _ _ hi he hs => step_inv happ hi he hs) ⟨?_, ?_⟩
  · intro x
    exact Session.start_inv (happ x) (sockfd x)
  · intro x
    exact ⟨List.nil_prefix, fun _ _ => rfl, fun hfin => Bool.noConfusion hfin, fun _ => rfl⟩

/-- Nothing arrives that was not sent, and nothing is missing but what is still buffered or on its
way. -/
theorem Inv.said (hi : Inv app R s) (x : Bool) :
    (s.side !x).received <+: spoken (s.side x).done ∧
      (s.broken = false → (s.side !x).stage ≠ .destroyed →
        spoken (s.side x).done =
          (s.side !x).received ++ s.incoming (!x) ++ (s.side x).tcp.outputBuffer_.readable) := by
  obtain ⟨hordered, hflow, _, _⟩ := hi.streams x
  have hside := hi.sides x
  constructor
  · rw [← hside.said, ← hside.conserved]
    exact hordered.trans (List.prefix_append _ _)
  · intro hbroken halive
    rw [← hside.said, ← hside.conserved, hflow hbroken halive]

/-- At the end of an unbroken stream all has arrived, unless the peer is gone already. -/
theorem Inv.ended (hi : Inv app R s) (hbroken : s.broken = false)
    (heof : s.Enabled (.own (!x) (.read (.delivered [])))) (halive : (s.side x).stage ≠ .destroyed) :
    (s.side !x).received = spoken (s.side x).done ∧ .shutdown ∈ (s.side x).done := by
  obtain ⟨henabled, hdelivers⟩ := heof
  have hfin : s.incoming (!x) = [] ∧ s.fin (!x) = true := by
    rcases hdelivers with hreset | hfin
    · rw [hbroken] at hreset
      cases hreset
    · exact hfin
  have hmem := ((hi.streams x).fin hfin.2).resolve_right halive
  obtain ⟨hdrained, hshutdown⟩ := (hi.sides x).halfClosed hmem
  have hall := (hi.said x).2 hbroken (stage_ne henabled)
  rw [hfin.1, hdrained, List.append_nil, List.append_nil] at hall
  exact ⟨hall.symm, hshutdown⟩

end Peers

end MuduoNet
