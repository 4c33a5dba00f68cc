import Csc412.Lib.Files
import Csc412.MapReduce.Apps

/-!
# The map side of a worker

`doMap` of `mapreduce/worker.go`, from the encoding of the buckets on. Any number of
executions for one job share the file system. A step is one system call of one of them:
`os.WriteFile` opens the temporary file, writes its bytes in as many calls as the system
needs, and closes it.
-/

namespace Csc412.MapReduce

open Lib

/-- The fields of `JobReply` that `doMap` reads here. -/
structure JobReply where
  jobId : Int
  nReduce : Int

/-- A `BucketMap`; a bucket that is not there is nil. -/
abbrev BucketMap := Nat → Option (List KeyValue)

def tmpName (jobId : Int) (r : Nat) : String :=
  "mapreduce-" ++ toString jobId ++ "-" ++ toString r ++ ".tmp"

def finalName (jobId : Int) (r : Nat) : String :=
  "mapreduce-" ++ toString jobId ++ "-" ++ toString r

/-- The error of `os.Rename` for a source that is not there, as `doMap` wraps it. -/
def renameError (jobId : Int) (r : Nat) : String :=
  "rename tmp→final: rename " ++ tmpName jobId r ++ " " ++ finalName jobId r ++
    ": no such file or directory"

/-- Where an execution of `doMap` stands in its loop over the buckets. -/
inductive DoMap where
  | creating (r : Nat)
  -- `i` is the open file and `off` its offset
  | writing (r i off : Nat)
  | publishing (r : Nat)
  | returned (err : Option String)
  | killed

structure Workers where
  files : Files String UInt8
  execs : Nat → DoMap

inductive SysCall where
  | create (e : Nat)
  -- the call writes `n` bytes
  | write (e n : Nat)
  | rename (e : Nat)
  | kill (e : Nat)

/-- The execution that makes a call. A kill is nobody's. -/
def SysCall.caller : SysCall → Option Nat
  | .create e | .write e _ | .rename e => some e
  | .kill _ => none

section
variable (encode : Option (List KeyValue) → List UInt8) (buckets : BucketMap) (reply : JobReply)

def enterBucket (r : Nat) : DoMap :=
  if (r : Int) < reply.nReduce then .creating r else .returned none

namespace Workers

def setExec (s : Workers) (files : Files String UInt8) (e : Nat) (d : DoMap) : Workers :=
  ⟨files, Function.update s.execs e d⟩

def step (s : Workers) : SysCall → Option Workers
  | .create e =>
    match s.execs e with
    | .creating r =>
      let (i, files) := s.files.create (tmpName reply.jobId r)
      some (s.setExec files e (.writing r i 0))
    | _ => none
  | .write e n =>
    match s.execs e with
    | .writing r i off =>
      let buf := encode (buckets r)
      if off + n ≤ buf.length ∧ (0 < n ∨ off = buf.length) then
        let files := s.files.write 0 i off ((buf.drop off).take n)
        some (s.setExec files e (if off + n = buf.length then .publishing r
          else .writing r i (off + n)))
      else none
    | _ => none
  | .rename e =>
    match s.execs e with
    | .publishing r =>
      match s.files.rename (tmpName reply.jobId r) (finalName reply.jobId r) with
      | some files => some (s.setExec files e (enterBucket reply (r + 1)))
      | none => some (s.setExec s.files e (.returned (some (renameError reply.jobId r))))
    | _ => none
  | .kill e =>
    match s.execs e with
    | .returned _ | .killed => none
    | _ => some (s.setExec s.files e .killed)

end Workers

end

/-- All executions are at their start. -/
def startWorkers (reply : JobReply) (files : Files String UInt8) : Workers :=
  ⟨files, fun _ => enterBucket reply 0⟩

/-- A directory without files of the job. -/
structure Vacant (jobId : Int) (files : Files String UInt8) : Prop where
  bound : ∀ n i, files.dir n = some i → i < files.next
  tmp : ∀ r, files.dir (tmpName jobId r) = none
  final : ∀ r, files.dir (finalName jobId r) = none

end Csc412.MapReduce
