import Csc412.Kernel.Dump
import Mathlib.Data.List.Dedup
import Mathlib.Data.List.Sort

/-!
# Grading a log

The checks of `MemMapInstance`, and `PerformCheck`, `PerformChecks`, `CheckKernelRuns`,
`CheckInvariants` and `grade` of `parse_log.py`. What they print, and the score that
`PerformChecks` writes to `args.output`, are left out. A check walks through the items of
a dictionary; the keys are those of the log's lines.
-/

namespace Csc412.Kernel.Log

open Lib.CString

inductive GradeError where
  -- `sys.exit(1)`
  | noOutput
  | parse (e : PyError)
  | type
  | index
  deriving DecidableEq, Repr

/-! ## Dictionaries -/

/-- A `MemMapInstance` with the items of `vm_state`. -/
structure Snapshot where
  pmState : Option (List PMEntry)
  vmItems : List (Int × List VMEntry)

/-- The tick of a line that has one. -/
def lineTick (line : Bytes) : Option Int :=
  if pmPrefix.isPrefixOf line then (pyInt ((lineSplit line).getD 1 [])).toOption
  else if vmPrefix.isPrefixOf line then (pyInt ((lineSplit line).getD 2 [])).toOption
  else none

/-- The process of a line that has one, if it is of tick `tick`. -/
def lineProcess (tick : Int) (line : Bytes) : Option Int :=
  if pmPrefix.isPrefixOf line then none
  else if vmPrefix.isPrefixOf line ∧ lineTick line = some tick
    then (pyInt ((lineSplit line).getD 1 [])).toOption
  else none

def Timeline.snapshot (t : Timeline) (lines : List Bytes) (tick : Int) : Snapshot where
  pmState := (t.at tick).pmState
  vmItems := (lines.filterMap (lineProcess tick)).map
    fun pid => (pid, ((t.at tick).vmState pid).getD [])

/-- `sorted(self.mem_data.items())`. -/
def Timeline.items (t : Timeline) (lines : List Bytes) : List (Int × Snapshot) :=
  ((lines.filterMap lineTick).dedup.insertionSort (· ≤ ·)).map
    fun tick => (tick, t.snapshot lines tick)

/-! ## The checks -/

/-- `0x100000 // PAGE_SIZE`. -/
def kernelLimit : Nat := 256

/-- `0xB8000 // PAGE_SIZE`. -/
def cgaBlock : Nat := 184

def physicalUnallocatedOffset : Nat := 17

/-- `perm & PTE_W`. -/
def pteWriteBit (perm : Int) : Int := 2 * (perm / 2 % 2)

/-- A loop over the processes that returns `False` as soon as one fails. -/
def forItems : List (Int × List VMEntry) → (Int → List VMEntry → Except GradeError Bool) →
    Except GradeError Bool
  | [], _ => .ok true
  | (processId, entries) :: items, f =>
    match f processId entries with
    | .error e => .error e
    | .ok false => .ok false
    | .ok true => forItems items f

namespace Snapshot

variable (inst : Snapshot)

def isKernelIsolated : Except GradeError Bool :=
  forItems inst.vmItems fun _ entries => .ok <|
    (entries.zipIdx.takeWhile fun (_, i) => i < kernelLimit).all fun (entry, i) =>
      !(i ≠ cgaBlock && entry.ua ≠ 0)

def areProcessesIsolated : Except GradeError Bool :=
  forItems inst.vmItems fun processId entries => .ok <| entries.zipIdx.all fun (entry, i) =>
    i < kernelLimit || !(entry.owner ≠ 0 && entry.owner ≠ processId && entry.ua ≠ 0)

def vpaLoop : Nat → List PMEntry → Bool
  | _, [] => false
  | i, entry :: entries =>
    if i < physicalUnallocatedOffset then vpaLoop (i + 1) entries
    else if kernelLimit ≤ i then false
    else if entry.owner ≠ 0 ∧ entry.owner ≤ 4 then true
    else vpaLoop (i + 1) entries

def isVPAUsed : Except GradeError Bool :=
  match inst.pmState with
  | none => .error .type
  | some entries => .ok (vpaLoop 0 entries)

/-- `occupancy[process_id]`. -/
def occupancy (processId : Int) (entries : List VMEntry) : Nat :=
  entries.zipIdx.countP fun (entry, i) =>
    kernelLimit ≤ i && (entry.owner ≠ 0 && entry.owner = processId && entry.ua ≠ 0)

def areProcessAddressesOverlapping : Except GradeError Bool :=
  .ok <| inst.vmItems.any fun (processId, entries) => 64 < occupancy processId entries

def checkOwnershipInvariant : Except GradeError Bool :=
  forItems inst.vmItems fun processId entries => .ok <| entries.zipIdx.all fun (entry, i) =>
    i < kernelLimit || !(entry.owner ≠ 0 && entry.owner = processId && entry.ua = 0)

def checkCGAAccessInvariant : Except GradeError Bool :=
  forItems inst.vmItems fun _ entries =>
    match entries[cgaBlock]? with
    | none => .error .index
    | some entry => .ok (entry.ua ≠ 0)

def isForkOK : Except GradeError Bool :=
  forItems inst.vmItems fun processId entries =>
    match entries[kernelLimit]? with
    | none => .error .index
    | some entry => .ok !(entry.owner =
      0 || (entry.owner ≠ processId && pteWriteBit entry.perm ≠ 0))

end Snapshot

/-! ## The grade -/

def performLoop (check : Snapshot → Except GradeError Bool) (startAtTick : Int) :
    List (Int × Snapshot) → Nat × Int → Except GradeError (Nat × Int)
  | [], r => .ok r
  | (tick, inst) :: items, (res, _) =>
    if tick < startAtTick then performLoop check startAtTick items (res, tick)
    else
      match check inst with
      | .error e => .error e
      | .ok true => performLoop check startAtTick items (1, tick)
      | .ok false => .ok (0, tick)

def performCheck (items : List (Int × Snapshot)) (check : Snapshot → Except GradeError Bool)
    (startAtTick : Int) :
    Except GradeError (Nat × Int) := performLoop check startAtTick items (0, 0)

def allFunctions : List ((Snapshot → Except GradeError Bool) × Int) :=
  [(Snapshot.isKernelIsolated, 0), (Snapshot.areProcessesIsolated, 0), (Snapshot.isVPAUsed, 500),
    (Snapshot.areProcessAddressesOverlapping, 800), (Snapshot.isForkOK, 800)]

/-- An end of a slice of `n` elements. -/
def sliceIndex (n : Nat) (i : Int) : Nat := if i < 0 then (n + i).toNat else min i.toNat n

/-- `l[i:j]`. -/
def pySlice {α : Type} (l : List α) (i j : Int) : List α :=
  (l.take (sliceIndex l.length j)).drop (sliceIndex l.length i)

def performAll (items : List (Int × Snapshot)) :
    List ((Snapshot → Except GradeError Bool) × Int) → Except GradeError Nat
  | [] => .ok 0
  | (check, startAtTick) :: toPerform =>
    match performCheck items check startAtTick with
    | .error e => .error e
    | .ok (res, _) => (performAll items toPerform).map fun passed => res + passed

def performChecks (items : List (Int × Snapshot)) (gradeFrom upTo : Int) : Except GradeError Nat :=
  performAll items (pySlice allFunctions gradeFrom upTo)

def checkKernelRuns (t : Timeline) (items : List (Int × Snapshot)) (expectedMaxTick : Int) : Nat :=
  match items.getLast? with
  | none => 0
  | some (maxTick, _) => if ¬ t.panic ∧ expectedMaxTick ≠ maxTick then 0 else 1

def checkInvariants : List (Int × Snapshot) → Except GradeError Nat
  | [] => .ok 1
  | (_, inst) :: items =>
    match inst.checkOwnershipInvariant with
    | .error e => .error e
    | .ok false => .ok 0
    | .ok true =>
      match inst.checkCGAAccessInvariant with
      | .error e => .error e
      | .ok false => .ok 0
      | .ok true => checkInvariants items

structure Score where
  kernelRuns : Nat
  invariantsPassed : Nat
  passed : Nat
  deriving DecidableEq, Repr

def Score.total (s : Score) : Nat := s.kernelRuns + s.invariantsPassed + s.passed

/-- `grade` with the file `args.tmpfile`, if there is one. -/
def grade (tmpfile : Option Bytes) (gradeFrom gradeUpTo : Int) : Except GradeError Score :=
  match tmpfile with
  | none => .error .noOutput
  | some log =>
    match memMapTimeline log with
    | .error e => .error (.parse e)
    | .ok t =>
      let items := t.items (readlines (universal false log))
      match checkInvariants items, performChecks items gradeFrom gradeUpTo with
      | .error e, _ => .error e
      | .ok _, .error e => .error e
      | .ok invariantsPassed, .ok passed => .ok ⟨checkKernelRuns t items 900,
        invariantsPassed, passed⟩

end Csc412.Kernel.Log
