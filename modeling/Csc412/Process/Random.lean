import Mathlib.Tactic.Common

/-!
# The random numbers of processes

`rand` and `srand` of `lib.c`. A process starts with its globals zero.
-/

namespace Csc412.Process

structure Rand where
  seedSet : Bool
  seed : BitVec 32
deriving DecidableEq, Repr

def randMax : BitVec 32 := 0x7FFFFFFF#32

def srand (seed : BitVec 32) : Rand := ⟨true, seed⟩

def rand (r : Rand) : Nat × Rand :=
  let r := if r.seedSet then r else srand 819234718#32
  let r := { r with seed := r.seed * 1664525#32 + 1013904223#32 }
  ((r.seed &&& randMax).toNat, r)

end Csc412.Process
