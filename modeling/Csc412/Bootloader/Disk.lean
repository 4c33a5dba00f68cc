import Mathlib.Data.List.Basic

/-!
# The disk image

`build/mkbootdisk.c` for a boot sector and any further arguments. The system decides what
each `write` does, so the results of all calls are given; the output is what has been
written.
-/

namespace Csc412.Bootloader

abbrev Bytes := List UInt8

/-- What a call of `write` returns. -/
inductive WriteResult where
  -- -1 with `EINTR`
  | interrupted
  -- -1 with another error
  | failed
  -- at most so many bytes are written
  | wrote (n : Nat)
deriving DecidableEq

/-- Why there is no image: the call of `usage` is reached, or the results do not suffice. -/
inductive NoImage where
  | usage (message : String)
  | running
deriving DecidableEq

structure Output where
  results : List WriteResult
  disk : Bytes

def diskwrite (data : Bytes) : List WriteResult → Bytes → Except NoImage Output
  | results, disk =>
    if data = [] then .ok ⟨results, disk⟩
    else
      match results with
      | [] => .error .running
      | .interrupted :: rest => diskwrite data rest disk
      | .failed :: _ => .error (.usage "write")
      | .wrote n :: rest =>
        let w := min n data.length
        if w = 0 then .error (.usage "write hit end of file")
          else diskwrite (data.drop w) rest (disk ++ data.take w)

def zerobuf : Bytes := List.replicate 512 0

/-- A file, or `@SECNUM`. -/
inductive Arg where
  | file (contents : Bytes)
  | skip (sector : Nat)

def bootBlock (bootsector : Bytes) : Bytes :=
  bootsector ++ List.replicate (510 - bootsector.length) 0 ++ [0x55, 0xAA]

def writeZeros : Nat → Output → Except NoImage Output
  | 0, out => .ok out
  | n + 1, out => do
    let out ← diskwrite zerobuf out.results out.disk
    writeZeros n out

/-- The loop over `fread`. -/
def writeFile (contents : Bytes) (out : Output) : Except NoImage Output :=
  if _h : contents = [] then .ok out
  else do
    let out ← diskwrite (contents.take 4096) out.results out.disk
    writeFile (contents.drop 4096) out
termination_by contents.length
decreasing_by
  have hpos := List.length_pos_iff.mpr _h
  rw [List.length_drop]
  omega

/-- The loop over the arguments, with `nsectors`. -/
def writeArgs : List Arg → Nat → Output → Except NoImage (Nat × Output)
  | [], nsectors, out => .ok (nsectors, out)
  | .skip sector :: args, nsectors, out =>
    if nsectors > sector then .error (.usage "mkbootdisk: can't skip to sector")
    else do
      let out ← writeZeros (sector - nsectors) out
      writeArgs args sector out
  | .file contents :: args, nsectors, out => do
    let out ← writeFile contents out
    let pos := contents.length
    if pos % 512 ≠ 0 then
      let out ← diskwrite (zerobuf.take (512 - pos % 512)) out.results out.disk
      writeArgs args (nsectors + (pos + (512 - pos % 512)) / 512) out
    else writeArgs args (nsectors + pos / 512) out

/-- `main` without `-p` and `-m`. -/
def mkbootdisk (results : List WriteResult) (bootsector : Bytes) (args : List Arg) :
    Except NoImage Bytes :=
  if min bootsector.length 4096 > 510 then .error (.usage "boot block too large")
  else do
    let out ← diskwrite (bootBlock bootsector) results []
    let (nsectors, out) ← writeArgs args 1 out
    let out ← writeZeros (1024 - nsectors) out
    .ok out.disk

end Csc412.Bootloader
