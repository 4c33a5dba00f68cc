import Csc412.Labrpc.Network

/-!
# Crashing and restarting servers

`crash1` and `start1` of `raft/config.go` over the simulated network, with the
persisters they hand from one instance of a server to the next. What a `Raft` does is
left open: its handlers and its own goroutines may save to the persister it was made
with at any moment. `crash1` and `start1` of one server follow each other, as in the
tests; those of different servers, the calls and everything else interleave freely. A
step is one operation on the network, on `cfg` or on a persister. `Kill`, the apply
channel and the logs that the tester checks play no part here.
-/

namespace Csc412.Raft

open Labrpc

/-- The content of a `Persister`; `clone` keeps it from being changed by others. -/
structure Persister where
  raftstate : Bytes
  snapshot : Bytes
  deriving DecidableEq, Repr

def makePersister : Persister := ⟨[], []⟩

structure Instance where
  me : Nat
  persister : Nat
  deriving DecidableEq, Repr

/-- What `crash1` and then `start1` do next for one server. -/
inductive Pc where
  | idle
  -- `disconnect`, the outgoing and the incoming ends
  | disableOut (j : Nat)
  | disableIn (j : Nat)
  | deleteServer
  -- the copy that stands between the old instance and the next one
  | copySaved
  | clearRaft
  | readRaftState
  | readSnapshot
  | renew
  | newEndnames
  | makeEnd (j : Nat)
  | connect (j : Nat)
  | copyOrMake
  | make
  | setRaft
  | makeServer
  | addService
  | addServer
  deriving DecidableEq, Repr

/-- The goroutine that crashes and starts one server, with the local variables of the
call it is in. -/
structure Driver where
  pc : Pc
  start : Bool
  raftlog : Bytes
  snapshot : Bytes
  rf : Option Nat
  srv : Option Nat

/-- The state of `cfg` and of the objects behind it. `receiver` gives the `Raft` whose
methods the service of a `Server` object calls. -/
structure System (E V T : Type) where
  net : Network E Nat V T
  persisters : Nat → Option Persister
  instances : Nat → Option Instance
  receiver : Nat → Option Nat
  saved : Nat → Option Nat
  rafts : Nat → Option Nat
  endnames : Nat → Option (Nat → E)
  drivers : Nat → Driver

inductive Event (E V T : Type) where
  -- calls, and what the tests do to the network otherwise
  | rpc (l : Label E Nat V T)
  -- `rf.persister.Save`, in the handler of call `c` or by itself
  | save (rf : Nat) (x : Persister) (c : Option Nat)
  | begin (i : Nat) (start : Bool)
  | endnames (i : Nat) (names : Nat → E)
  -- one operation of `crash1` or `start1`, with the number of a new object
  | op (i : Nat) (pc : Pc) (fresh : Nat)

section
variable {E V T : Type}

def makeConfig : System E V T where
  net := makeNetwork
  persisters := fun _ => none
  instances := fun _ => none
  receiver := fun _ => none
  saved := fun _ => none
  rafts := fun _ => none
  endnames := fun _ => none
  drivers := fun _ => ⟨.idle, false, [], [], none, none⟩

/-! ## The order of operations -/

def crash1 (n : Nat) : Pc := if n = 0 then .deleteServer else .disableOut 0

/-- What follows an operation; `start1` goes on after its `crash1`. -/
def Pc.next (n : Nat) (start : Bool) : Pc → Pc
  | .idle => .idle
  | .disableOut j => if j + 1 < n then .disableOut (j + 1) else .disableIn 0
  | .disableIn j => if j + 1 < n then .disableIn (j + 1) else .deleteServer
  | .deleteServer => .copySaved
  | .copySaved => .clearRaft
  | .clearRaft => .readRaftState
  | .readRaftState => .readSnapshot
  | .readSnapshot => .renew
  | .renew => if start then .newEndnames else .idle
  | .newEndnames => if n = 0 then .copyOrMake else .makeEnd 0
  | .makeEnd j => .connect j
  | .connect j => if j + 1 < n then .makeEnd (j + 1) else .copyOrMake
  | .copyOrMake => .make
  | .make => .setRaft
  | .setRaft => .makeServer
  | .makeServer => .addService
  | .addService => .addServer
  | .addServer => .idle

/-- Only `start1` registers servers and only `crash1` removes them. -/
def external : Label E Nat V T → Bool
  | .addServer .. | .deleteServer .. | .makeServer .. | .addService .. => false
  | _ => true

namespace System

/-! ## Operations -/

def handles (s : System E V T) (c rf : Nat) : Bool :=
  match s.net.calls c with
  | some k => match k.handler with
    | .running o _ _ => s.receiver o == some rf
    | _ => false
  | none => false

def setSaved (s : System E V T) (i fresh : Nat) (x : Persister) : System E V T :=
  { s with
    persisters := Function.update s.persisters fresh (some x)
    saved := Function.update s.saved i (some fresh) }

def savedContent (s : System E V T) (i : Nat) : Option Persister := (s.saved i).bind s.persisters

def netLabel (svc : Service T) (s : System E V T) : Event E V T → Option (Label E Nat V T)
  | .rpc l => some l
  | .op i (.disableOut j) _ => (s.endnames i).map fun names => .enable (names j) false
  | .op i (.disableIn j) _ => (s.endnames j).map fun names => .enable (names i) false
  | .op i .deleteServer _ => some (.deleteServer i)
  | .op i (.makeEnd j) _ => (s.endnames i).map fun names => .makeEnd (names j)
  | .op i (.connect j) _ => (s.endnames i).map fun names => .connect (names j) (some j)
  | .op _ .makeServer fresh => some (.makeServer fresh)
  | .op i .addService _ => (s.drivers i).srv.map fun o => .addService o "Raft" svc
  | .op i .addServer _ => (s.drivers i).srv.map fun o => .addServer i o
  | _ => none

def exec (s : System E V T) (i fresh : Nat) (d : Driver) : Option (System E V T × Driver) :=
  match d.pc with
  | .copySaved =>
    match s.savedContent i with
    | none => some (s, d)
    | some x => if (s.persisters fresh).isSome then none else some (s.setSaved i fresh x, d)
  | .clearRaft => some ({ s with rafts := Function.update s.rafts i none }, d)
  | .readRaftState =>
    match s.savedContent i with
    | none => some (s, d)
    | some x => some (s, { d with raftlog := x.raftstate })
  | .readSnapshot =>
    match s.savedContent i with
    | none => some (s, d)
    | some x => some (s, { d with snapshot := x.snapshot })
  | .renew =>
    match s.saved i with
    | none => some (s, d)
    | some _ =>
      if (s.persisters fresh).isSome then none
      else some (s.setSaved i fresh ⟨d.raftlog, d.snapshot⟩, d)
  | .copyOrMake =>
    if (s.persisters fresh).isSome then none
    else match s.savedContent i with
      | none => some (s.setSaved i fresh makePersister, d)
      | some x => some (s.setSaved i fresh x, d)
  | .make =>
    match s.saved i with
    | none => none
    | some p =>
      if (s.instances fresh).isSome then none
      else some ({ s with instances := Function.update s.instances fresh (some ⟨i, p⟩) },
        { d with rf := some fresh })
  | .setRaft => some ({ s with rafts := Function.update s.rafts i d.rf }, d)
  | .makeServer => some (s, { d with srv := some fresh })
  | .addService =>
    match d.srv with
    | none => none
    | some o => some ({ s with receiver := Function.update s.receiver o d.rf }, d)
  | .idle | .newEndnames => none
  | _ => some (s, d)

def setDriver (s : System E V T) (i : Nat) (d : Driver) : System E V T :=
  { s with drivers := Function.update s.drivers i d }

def effect (n : Nat) (s : System E V T) : Event E V T → Option (System E V T)
  | .rpc l => if external l then some s else none
  | .save rf x c =>
    match s.instances rf with
    | none => none
    | some r =>
      if c.all fun c => s.handles c rf then
        some { s with persisters := Function.update s.persisters r.persister (some x) }
      else none
  | .begin i start =>
    if (s.drivers i).pc = .idle then some (s.setDriver i ⟨crash1 n, start, [], [], none, none⟩)
      else none
  | .endnames i names =>
    let d := s.drivers i
    if d.pc = .newEndnames then
      some ({ s with endnames := Function.update s.endnames i (some names) }.setDriver i { d with
          pc := d.pc.next n d.start })
    else none
  | .op i pc fresh =>
    let d := s.drivers i
    if d.pc = pc then (s.exec i fresh d).map fun r => r.1.setDriver i { r.2 with
        pc := pc.next n d.start } else none

/-- One event of the whole system, with `n` servers whose methods are those of `svc`. -/
def step [DecidableEq E] [DecidableEq T] (G : Gob V T) (n : Nat) (svc : Service T)
    (s : System E V T) (e : Event E V T) :
    Option (System E V T) :=
  if s.net.fatal.isSome then none
  else match s.netLabel svc e with
  | none => s.effect n e
  | some l =>
    match Labrpc.step G s.net l with
    | none => none
    | some net => (s.effect n e).map fun s' => { s' with net := net }

end System

end

end Csc412.Raft
