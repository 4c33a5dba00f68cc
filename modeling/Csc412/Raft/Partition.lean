import Csc412.Labrpc.Network

/-!
# Crashes and partitions of the tester

`crash1`, `start1`, `connect` and `disconnect` of `raft/config.go`. The goroutine of
the test calls them one after another; each method of the network takes its lock by
itself, so the goroutines behind the calls run in between.
-/

namespace Csc412.Raft

open Labrpc (Label Network Service Gob)

/-- A call of a method of `cfg.net`; `none` indexes a nil slice first. -/
abbrev Op (E V T : Type) := Option (Label E Nat V T)

/-- What the goroutines behind the calls do, and the settings of the network. -/
def traffic {E V T : Type} : Label E Nat V T → Bool
  | .call _ _ _ _ _ | .act _ _ | .reliable _ | .longReordering _ | .longDelays _ | .cleanup |
    .stop => true
  | _ => false

/-- The fields of `config` that only the test's goroutine reads, which are changed as a
move begins, and what is left of the move. `rafts` tells which are not nil. -/
structure Harness (E V T : Type) where
  n : Nat
  net : Network E Nat V T
  rafts : Nat → Bool
  connected : Nat → Bool
  endnames : Nat → Option (Nat → E)
  pending : List (Op E V T)
  panicked : Bool

inductive Move (E V T : Type) where
  | traffic (l : Label E Nat V T)
  | proceed
  | connect (i : Nat)
  | disconnect (i : Nat)
  | crash1 (i : Nat)
  -- the names that `randstring` makes, the new `Server` and the service of the new Raft
  | start1 (i : Nat) (names : Nat → E) (server : Nat) (svc : Service T)

section
variable {E V T : Type}

/-- `make_config` before the first `start1`. -/
def newConfig (n : Nat) : Harness E V T :=
  ⟨n, Labrpc.makeNetwork, fun _ => false, fun _ => false, fun _ => none, [], false⟩

def enables (enabled : Bool) (names : List (Option E)) : List (Op E V T) :=
  names.map (Option.map (Label.enable · enabled))

namespace Harness

variable (h : Harness E V T)

def endname (i j : Nat) : Option E := (h.endnames i).map (· j)

def connectOps (i : Nat) : List (Op E V T) :=
  enables true (((List.range h.n).filter h.connected).map (h.endname i)) ++
    enables true (((List.range h.n).filter h.connected).map (h.endname · i))

def disconnectOps (i : Nat) : List (Op E V T) :=
  enables false (((List.range h.n).filter fun _ => (h.endnames i).isSome).map (h.endname i)) ++
    enables false (((List.range h.n).filter fun j => (h.endnames j).isSome).map (h.endname · i))

def startOps (i : Nat) (names : Nat → E) (server : Nat) (svc : Service T) : List (Op E V T) :=
  ((List.range h.n).flatMap fun j => [some (.makeEnd (names j)),
    some (.connect (names j) (some j))]) ++
    [some (.makeServer server), some (.addService server "Raft" svc), some (.addServer i server)]

def connect (i : Nat) : Harness E V T :=
  let h := { h with connected := Function.update h.connected i true }
  { h with pending := h.connectOps i }

def disconnect (i : Nat) : Harness E V T :=
  let h := { h with connected := Function.update h.connected i false }
  { h with pending := h.disconnectOps i }

def crash1 (i : Nat) : Harness E V T :=
  let h := h.disconnect i
  { h with rafts := Function.update h.rafts i false, pending := h.pending ++
    [some (.deleteServer i)] }

def start1 (i : Nat) (names : Nat → E) (server : Nat) (svc : Service T) : Harness E V T :=
  let h := h.crash1 i
  { h with
    endnames := Function.update h.endnames i (some names)
    rafts := Function.update h.rafts i true
    pending := h.pending ++ h.startOps i names server svc }

/-- The test is between two of its calls, and nothing has gone wrong. -/
def Quiet : Prop := h.pending = [] ∧ h.panicked = false ∧ h.net.fatal = none

instance : Decidable h.Quiet := inferInstanceAs (Decidable (_ ∧ _ ∧ _))

def step [DecidableEq E] [DecidableEq T] (G : Gob V T) : Move E V T → Option (Harness E V T)
  | .traffic l =>
    if traffic l ∧ h.panicked = false then (Labrpc.step G h.net l).map fun s => { h with net := s }
      else none
  | .proceed =>
    match h.panicked, h.pending with
    | false, none :: ops => some { h with pending := ops, panicked := true }
    | false, some l :: ops =>
      (Labrpc.step G h.net l).map fun s => { h with net := s, pending := ops }
    | _, _ => none
  | .connect i => if h.Quiet ∧ i < h.n then some (h.connect i) else none
  | .disconnect i => if h.Quiet ∧ i < h.n then some (h.disconnect i) else none
  | .crash1 i => if h.Quiet ∧ i < h.n then some (h.crash1 i) else none
  | .start1 i names server svc =>
    if h.Quiet ∧ i < h.n then some (h.start1 i names server svc) else none

end Harness

end

end Csc412.Raft
