import Csc412.MapReduce.Apps

/-!
# The map jobs

The first part of `MakeCoordinator` in `mapreduce/coordinator.go`, up to the server. Sizes
are those of files, so nothing here comes near the bounds of `int64`.
-/

namespace Csc412.MapReduce

/-- The status and the type of jobs in `mapreduce/rpc.go`. -/
inductive JobStatus where
  | unassigned
  | finished
  | assigned
deriving DecidableEq

inductive JobType where
  | unknownTask
  | mapTask
  | reduceTask
deriving DecidableEq

structure MapJob where
  jobId : Nat
  jobType : JobType
  status : JobStatus
  fileLocation : GoString
  fileIndex : Nat
  mSize : Nat
  timeout : Int
deriving DecidableEq

def mapInputSize : Nat := 64 * 1024 * 1024

theorem mapInputSize_pos : 0 < mapInputSize := by decide

/-- The loop over `offset`, with the size of its last piece in `chunkSize`. -/
def splitLoop (file : GoString) (fileSize offset chunkSize jobId : Nat) (hc : 0 < chunkSize) :
    List MapJob :=
  if h : offset < fileSize then
    if hlast : fileSize - offset < chunkSize then
      ⟨jobId, .mapTask, .unassigned, file, offset, fileSize - offset, 0⟩ ::
        splitLoop file fileSize (offset + (fileSize - offset)) (fileSize - offset) (jobId + 1)
          (by omega)
    else
      ⟨jobId, .mapTask, .unassigned, file, offset, chunkSize, 0⟩ ::
        splitLoop file fileSize (offset + chunkSize) chunkSize (jobId + 1) hc
  else []
termination_by fileSize - offset

/-- The map jobs of `MakeCoordinator`; `none` for the size of a file that cannot be
accessed, which ends the function. -/
def makeMapJobs (size : GoString → Option Nat) : List GoString → Nat → List MapJob
  | [], _ => []
  | file :: files, jobId =>
    match size file with
    | none => []
    | some fileSize =>
      let jobs := splitLoop file fileSize 0 mapInputSize jobId mapInputSize_pos
      jobs ++ makeMapJobs size files (jobId + jobs.length)

def makeCoordinator (size : GoString → Option Nat) (files : List GoString) : List MapJob :=
  makeMapJobs size files 1000

def MapJob.range (job : MapJob) (contents : GoString) : GoString :=
  (contents.drop job.fileIndex).take job.mSize

end Csc412.MapReduce
