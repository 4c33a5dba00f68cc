import Mathlib.Logic.Function.Basic

/-!
# The tester's record of what is applied

`checkLogs`, `ingestSnap` and the loops `applier` and `applierSnap` of
`raft/config.go`. A step is one critical section on `cfg.mu` with the local work that
follows it, or a part of a loop outside of them. The loops of different servers
interleave, and each of them takes its messages one after another.
-/

namespace Csc412.Raft

/-- An `ApplyMsg` with commands `V` and snapshots `B`; a nil command or snapshot is `none`. -/
structure ApplyMsg (V B : Type) where
  commandValid : Bool
  command : Option V
  commandIndex : Int
  snapshotValid : Bool
  snapshot : Option B
  snapshotIndex : Int

/-- `labgob` as the snapshots of the tester use it. -/
structure SnapGob (V B : Type) where
  encode : Int → List (Option V) → B
  decode : B → Option (Int × List (Option V))

def SnapGob.Lawful {V B : Type} (G : SnapGob V B) : Prop :=
  ∀ k xlog, G.decode (G.encode k xlog) = some (k, xlog)

/-- `cfg.logs[i]`; the value of an index may be nil. -/
abbrev AppliedLog (V : Type) := Int → Option (Option V)

/-- Where the loop of one server stands, with the message at hand and `err_msg`. The
first three are in `applierSnap` only. -/
inductive Loop (V B : Type) where
  | idle
  -- before `checkLogs`, before `lastApplied` is set and before the snapshot
  | ordered (m : ApplyMsg V B) (err : String)
  | checked (m : ApplyMsg V B) (err : String)
  | counted (m : ApplyMsg V B) (err : String)
  | ending (err : String)

/-- `snapshots` are those that `applierSnap` gave to `rf.Snapshot`, with their indices,
and `errors` the error strings that were produced. -/
structure Tester (V B : Type) where
  logs : Nat → AppliedLog V
  lastApplied : Nat → Int
  maxIndex : Int
  loops : Nat → Loop V B
  snapshots : List (Int × B)
  errors : List String
  fatal : Bool

inductive Apply (V B : Type) where
  -- a message for the loop of server `i`, which is `applierSnap` if `snap` holds
  | deliver (i : Nat) (snap : Bool) (m : ApplyMsg V B)
  | advance (i : Nat)

def snapShotInterval : Int := 10

section
variable {V B : Type}

def makeTester : Tester V B := ⟨fun _ _ => none, fun _ => 0, 0, fun _ => .idle, [], [], false⟩

def formatValue [ToString V] : Option V → String
  | none => "<nil>"
  | some v => toString v

def outOfOrder (i : Nat) (index : Int) : String :=
  "server " ++ toString i ++ " apply out of order " ++ toString index

namespace Tester

def setLoop (s : Tester V B) (i : Nat) (l : Loop V B) : Tester V B :=
  { s with loops := Function.update s.loops i l }

/-- `err_msg` becomes `err` in the loop of server `i`. -/
def produce (s : Tester V B) (err : String) : Tester V B :=
  if err = "" then s else { s with errors := s.errors ++ [err] }

/-- `err_msg` of `checkLogs` after the servers below `n`. -/
def mismatch [DecidableEq V] [ToString V] (s : Tester V B) (n i : Nat) (m : ApplyMsg V B) :
    String :=
  (List.range n).foldl (fun err j =>
    match s.logs j m.commandIndex with
    | some old =>
      if old ≠ m.command then
        "commit index=" ++ toString m.commandIndex ++ " server=" ++ toString i ++ " " ++
          formatValue m.command ++
          " != server=" ++ toString j ++ " " ++ formatValue old
      else err
    | none => err) ""

def record (s : Tester V B) (i : Nat) (m : ApplyMsg V B) : Tester V B :=
  { s with
    logs := Function.update s.logs i (Function.update (s.logs i) m.commandIndex (some m.command))
    maxIndex := if s.maxIndex < m.commandIndex then m.commandIndex else s.maxIndex }

/-- `checkLogs`, and the test on `prevok` that both loops make after it. -/
def checkLogs [DecidableEq V] [ToString V] (s : Tester V B) (n i : Nat) (m : ApplyMsg V B) :
    String × Tester V B :=
  let err := s.mismatch n i m
  let prevok := (s.logs i (m.commandIndex - 1)).isSome
  (if 1 < m.commandIndex ∧ prevok = false then outOfOrder i m.commandIndex else err, s.record i m)

/-- `cfg.logs[i]` with the entries of `xlog`. -/
def restored (xlog : List (Option V)) : AppliedLog V :=
  fun k => if 0 ≤ k then xlog[k.toNat]? else none

/-- `ingestSnap`; the first two errors end the process at once. -/
def ingestSnap (G : SnapGob V B) (s : Tester V B) (i : Nat) (snapshot : Option B) (index : Int) :
    String × Tester V B :=
  match snapshot with
  | none => ("nil snapshot", { s with fatal := true })
  | some b =>
    match G.decode b with
    | none => ("snapshot decode error", { s with fatal := true })
    | some (lastIncludedIndex, xlog) =>
      if index ≠ -1 ∧ index ≠ lastIncludedIndex then
        ("server " ++ toString i ++ " snapshot doesn't match m.SnapshotIndex", s)
      else
        ("", { s with
          logs := Function.update s.logs i (restored xlog)
          lastApplied := Function.update s.lastApplied i lastIncludedIndex })

/-- The entries 0 to `index`, nil where there is none. -/
def takeSnapshot (s : Tester V B) (i : Nat) (index : Int) : List (Option V) :=
  (List.range (index + 1).toNat).map fun j : Nat => (s.logs i j).getD none

/-- The loop of server `i` receives `m`. -/
def deliver [DecidableEq V] [ToString V] (G : SnapGob V B) (n : Nat) (s : Tester V B) (i : Nat)
    (snap : Bool) (m : ApplyMsg V B) :
    Tester V B :=
  if snap then
    if m.snapshotValid then
      let (err, s) := s.ingestSnap G i m.snapshot m.snapshotIndex
      (s.produce err).setLoop i (.ending err)
    else if m.commandValid then
      let err :=
        if m.commandIndex ≠ s.lastApplied i + 1 then
          "server " ++ toString i ++ " apply out of order, expected index " ++
            toString (s.lastApplied i + 1) ++
            ", got " ++ toString m.commandIndex
        else ""
      (s.produce err).setLoop i (.ordered m err)
    else s
  else if m.commandValid then
    let (err, s) := s.checkLogs n i m
    (s.produce err).setLoop i (.ending err)
  else s

/-- The loop of server `i` goes on with the message at hand. -/
def advance [DecidableEq V] [ToString V] (G : SnapGob V B) (n : Nat) (s : Tester V B) (i : Nat) :
    Option (Tester V B) :=
  match s.loops i with
  | .idle => none
  | .ordered m err =>
    if err = "" then
      let (err, s) := s.checkLogs n i m
      some ((s.produce err).setLoop i (.checked m err))
    else some (s.setLoop i (.checked m err))
  | .checked m err =>
    some ({ s with lastApplied := Function.update s.lastApplied i m.commandIndex }.setLoop i
      (.counted m err))
  | .counted m err =>
    if (m.commandIndex + 1).tmod snapShotInterval = 0 then
      let b := G.encode m.commandIndex (s.takeSnapshot i m.commandIndex)
      some ({ s with snapshots := s.snapshots ++ [(m.commandIndex, b)] }.setLoop i (.ending err))
    else some (s.setLoop i (.ending err))
  | .ending err => some (if err = "" then s.setLoop i .idle else { s with fatal := true })

/-- One step of the loops of `n` servers. Raft delivers no snapshot but those that it
was given, with their indices. -/
def step [DecidableEq V] [DecidableEq B] [ToString V] (G : SnapGob V B) (n : Nat) (s : Tester V B) :
    Apply V B → Option (Tester V B)
  | .deliver i snap m =>
    match s.fatal, s.loops i with
    | false, .idle =>
      if i < n ∧ (snap = true → m.snapshotValid = true → ∃ p ∈ s.snapshots, m.snapshot = some p.2 ∧
        m.snapshotIndex = p.1) then
        some (s.deliver G n i snap m)
      else none
    | _, _ => none
  | .advance i => if s.fatal = false ∧ i < n then s.advance G n i else none

end Tester

end

end Csc412.Raft
