import Csc412.Lib.Regexp
import Csc412.MapReduce.Coordinator
import Csc412.MapReduce.Worker

/-!
# The shuffle

`GetIntermediateFiles` and the reduce jobs of `MakeCoordinator` in `mapreduce/coordinator.go`.
The coordinator finds the files of `doMap` by their names.
-/

namespace Csc412.MapReduce

open Lib

structure DirEntry where
  name : String
  isDir : Bool
deriving DecidableEq

/-- What `os.ReadDir` gives: no name is there twice. -/
structure Directory where
  entries : List DirEntry
  distinct : (entries.map DirEntry.name).Nodup

def intermediatePattern (rNum : Int) : String := "^mapreduce-(\\d+)-" ++ toString rNum ++ "$"

/-- `none` is a directory that cannot be read. -/
def getIntermediateFiles (cwd : Option Directory) (rNum : Int) : List String :=
  match Regexp.compile (intermediatePattern rNum) with
  | none => []
  | some regex =>
    match cwd with
    | none => []
    | some files =>
      let matched := files.entries.filter fun file => !file.isDir &&
        Regexp.matchString file.name.toList regex
      matched.map DirEntry.name

structure ReduceJob where
  jobId : Nat
  status : JobStatus
  intermediateFiles : List String
  timeout : Int
deriving DecidableEq

/-- The loop over `rNum`. -/
def makeReduceJobs (cwd : Option Directory) (nReduce : Int) : List ReduceJob :=
  (List.range nReduce.toNat).map fun rNum => ⟨rNum, .unassigned, getIntermediateFiles cwd rNum, 0⟩

end Csc412.MapReduce
