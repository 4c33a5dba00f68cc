import Mathlib.Logic.Function.Basic
import Csc412.Lib.ByteMemory

/-!
# Copying and filling memory

`memcpy`, `memmove` and `memset` of `lib.c`. Each returns the memory it leaves and its
result.
-/

namespace Csc412.Memory
open Lib

abbrev Word := BitVec 64

/-- `*d++ = *s++`, `n` times. -/
def copyUp : Nat → ByteMemory → Word → Word → ByteMemory
  | 0, m, _, _ => m
  | n + 1, m, d, s => copyUp n (Function.update m d (m s)) (d + 1) (s + 1)

/-- `*--d = *--s`, `n` times. -/
def copyDown : Nat → ByteMemory → Word → Word → ByteMemory
  | 0, m, _, _ => m
  | n + 1, m, d, s => copyDown n (Function.update m (d - 1) (m (s - 1))) (d - 1) (s - 1)

def memcpy (m : ByteMemory) (dst src n : Word) : ByteMemory × Word :=
  (copyUp n.toNat m dst src, dst)

def memmove (m : ByteMemory) (dst src n : Word) : ByteMemory × Word :=
  if src < dst ∧ src + n > dst then (copyDown n.toNat m (dst + n) (src + n), dst)
  else (copyUp n.toNat m dst src, dst)

def fill (c : UInt8) : Nat → ByteMemory → Word → ByteMemory
  | 0, m, _ => m
  | n + 1, m, p => fill c n (Function.update m p c) (p + 1)

def memset (m : ByteMemory) (v : Word) (c : BitVec 32) (n : Word) : ByteMemory × Word :=
  (fill (UInt8.ofBitVec (c.setWidth 8)) n.toNat m v, v)

end Csc412.Memory
