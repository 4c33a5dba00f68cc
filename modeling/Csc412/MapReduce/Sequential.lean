import Mathlib.Data.List.Forall2
import Csc412.MapReduce.Apps

/-!
# The sequential driver

`sequential/sequential.go` and the jobs of `common/registry.go` that it is run on here. A
call of a map or a reduce function may have several results, as the range over a Go map and
the random draws of `mapreduceapps/common.go` give them.
-/

namespace Csc412.MapReduce

/-! ## The jobs -/

/-- `JobFns`: what a call may return. -/
structure Job where
  map : GoString → GoString → List KeyValue → Prop
  reduce : GoString → List GoString → GoString → Prop

/-- A draw below 1000. There is no result where the process exits. -/
def maybeCrash (rr : Nat) : Option Unit := if false && rr < 500 then none else some ()

/-- With the milliseconds that it sleeps. -/
def maybeCrashOrSleep (rr ms : Nat) : Option Nat :=
  if rr < 330 then none else if rr < 660 then some ms else some 0

def Survives (rr : Nat) : Prop := rr < 1000 ∧ maybeCrash rr = some ()

def SurvivesSleep (rr ms : Nat) : Prop :=
  rr < 1000 ∧ ms < 10 * 1000 ∧ (maybeCrashOrSleep rr ms).isSome

/-- The four pairs that `MapCrash` and `MapNoCrash` make of a file. -/
def fileFacts (text filename contents : GoString) : List KeyValue :=
  [⟨[0x61], filename⟩, ⟨[0x62], itoa filename.length⟩, ⟨[0x63], itoa contents.length⟩,
    ⟨[0x64], text⟩]

/-- `abcdefg`. -/
def mapNoCrash : GoString → GoString → List KeyValue :=
  fileFacts [0x61, 0x62, 0x63, 0x64, 0x65, 0x66, 0x67]

/-- `abcdefgxyz`. -/
def mapCrash : GoString → GoString → List KeyValue :=
  fileFacts [0x61, 0x62, 0x63, 0x64, 0x65, 0x66, 0x67, 0x78, 0x79, 0x7A]

/-- The values in their order, so that the output does not depend on how they came. -/
def reduceSorted (_key : GoString) (values : List GoString) : GoString :=
  joinStrings [0x20] (sortStrings values)

def reduceNoCrash : GoString → List GoString → GoString := reduceSorted

def reduceCrash : GoString → List GoString → GoString := reduceSorted

def mapEarlyExit (filename _contents : GoString) : List KeyValue := [⟨filename, [0x31]⟩]

/-- The source sleeps over some keys before it returns. -/
def reduceEarlyExit (_key : GoString) (values : List GoString) : GoString := itoa values.length

def wcJob (isLetter : Nat → Bool) : Job where
  map filename contents kva := kva = mapWC isLetter filename contents
  reduce key values output := output = reduceWC key values

/-- The range over `m` gives the pairs in any order. -/
def indexerJob (isLetter : Nat → Bool) : Job where
  map document value res := res.Perm (mapIndexer isLetter document value)
  reduce key values output := output = reduceIndexer key values

def earlyExitJob : Job where
  map filename contents kva := kva = mapEarlyExit filename contents
  reduce key values output := output = reduceEarlyExit key values

def noCrashJob : Job where
  map filename contents kva := ∃ rr, Survives rr ∧ kva = mapNoCrash filename contents
  reduce key values output := ∃ rr, Survives rr ∧ output = reduceNoCrash key values

/-- In the executions in which no call exits. -/
def crashJob : Job where
  map filename contents kva := ∃ rr ms, SurvivesSleep rr ms ∧ kva = mapCrash filename contents
  reduce key values output := ∃ rr ms, SurvivesSleep rr ms ∧ output = reduceCrash key values

/-! ## The driver -/

section
variable (intermediate : List KeyValue)

/-- The loop over `j`. -/
def runEnd (i : Fin intermediate.length) (j : Nat) : Nat :=
  if h : j < intermediate.length then
    if intermediate[j].key = intermediate[i].key then runEnd i (j + 1) else j
  else j
termination_by intermediate.length - j

theorem le_runEnd (i : Fin intermediate.length) (j : Nat) : j ≤ runEnd intermediate i j := by
  fun_induction runEnd intermediate i j with
  | case1 j _ _ ih => exact Nat.le_of_succ_le ih
  | case2 j _ _ => exact Nat.le_refl j
  | case3 j _ => exact Nat.le_refl j

/-- The loop over `i`: the key and the values of each call of `reducef`. -/
def calls (i : Nat) : List (GoString × List GoString) :=
  if h : i < intermediate.length then
    let j := runEnd intermediate ⟨i, h⟩ (i + 1)
    (intermediate[i].key, (intermediate.extract i j).map KeyValue.value) :: calls j
  else []
termination_by intermediate.length - i
decreasing_by
  have hlt := le_runEnd intermediate ⟨i, h⟩ (i + 1)
  omega

end

/-- The text of `"%v %v\n"`. -/
def printPair (key output : GoString) : GoString := key ++ 0x20 :: (output ++ [0x0A])

structure InputFile where
  filename : GoString
  data : GoString

/-- A run of `main` over its input files: what each call returned, and the order in which
`sort.Sort` left the pairs. -/
structure Execution (job : Job) (files : List InputFile) where
  emitted : List (List KeyValue)
  mapped : List.Forall₂ (fun file kva => job.map file.filename file.data kva) files emitted
  intermediate : List KeyValue
  permuted : intermediate.Perm emitted.flatten
  sorted : intermediate.Pairwise fun a b => a.key ≤ b.key
  outputs : List GoString
  reduced : List.Forall₂ (fun call output => job.reduce call.1 call.2 output)
    (calls intermediate 0) outputs

namespace Execution
variable {job : Job} {files : List InputFile} (e : Execution job files)

def reduceCalls : List (GoString × List GoString) := calls e.intermediate 0

def lines : List GoString :=
  List.zipWith (fun call output => printPair call.1 output) e.reduceCalls e.outputs

end Execution

/-- The lines that `main` leaves in the output file. Without input files it only prints its usage.
-/
inductive Main (job : Job) : List InputFile → Option (List GoString) → Prop
  | usage : Main job [] none
  | done {files : List InputFile} (h : files ≠ []) (e : Execution job files) :
    Main job files (some e.lines)

end Csc412.MapReduce
