import Csc412.Kernel.Paging

/-!
# Segment descriptors and gates

`set_app_segment`, `set_sys_segment`, `set_gate` and the segments of `segments_init` in
`k-hardware.c`, and what the processor reads in the descriptors. The constants are those of
`x86-64.h`.
-/

namespace Csc412.Kernel

def x86segS : Word := 1 <<< 44
def x86segP : Word := 1 <<< 47
def x86segL : Word := 1 <<< 53

def x86segW : Word := 0x2 <<< 40
def x86segX : Word := 0x8 <<< 40

def x86segTss : Word := 0x9 <<< 40
def x86gateInterrupt : Word := 0xE <<< 40

def segselKernCode : BitVec 32 := 0x8

def setAppSegment (type : Word) (dpl : BitVec 32) : Word :=
  type ||| x86segS ||| dpl.signExtend 64 <<< 45 ||| x86segP

/-- The two words of a system segment. -/
def setSysSegment (type : Word) (dpl : BitVec 32) (addr size : Word) : Word × Word :=
  ((addr &&& 0x0000000000FFFFFF) <<< 16 ||| (addr &&& 0x00000000FF000000) <<< 32 |||
    ((size - 1) &&& 0x0FFFF : Word) |||
    ((size - 1) &&& 0xF0000) <<< 48 ||| type ||| dpl.signExtend 64 <<< 45 ||| x86segP, addr >>> 32)

def setGate (type : Word) (dpl : BitVec 32) (function : Word) : Word × Word :=
  ((function &&& 0x000000000000FFFF : Word) ||| (segselKernCode <<< 16).signExtend 64 ||| type |||
    dpl.signExtend 64 <<< 45 ||| x86segP |||
    (function &&& 0x00000000FFFF0000) <<< 32, function >>> 32)

/-- `sizeof(x86_64_taskstate)`, which is packed. -/
def sizeofTaskstate : Word := 96

/-- `segments`, for the address of the task state. -/
def segmentsInit (kernelTaskDescriptor : Word) : List Word :=
  let task := setSysSegment x86segTss 0 kernelTaskDescriptor sizeofTaskstate
  [0, setAppSegment (x86segX ||| x86segL) 0, setAppSegment (x86segX ||| x86segL) 3,
    setAppSegment x86segW 0, setAppSegment x86segW 3, task.1, task.2]

/-! ## What the processor reads -/

/-- A segment: the base in the bits 16 to 39 and 56 to 63 and the second word, the limit in
the bits 0 to 15 and 48 to 51. -/
structure SegmentDescriptor where
  base : Word
  limit : Word
  type : BitVec 4
  -- bit 44, zero for a system segment
  s : BitVec 1
  dpl : BitVec 32
  present : BitVec 1
  -- the bits 52 to 55
  flags : BitVec 4
  -- the upper half of the second word
  reserved : BitVec 32
  deriving DecidableEq

def segmentDescriptor (words : Word × Word) : SegmentDescriptor where
  base := words.2.extractLsb' 0 32 ++ words.1.extractLsb' 56 8 ++ words.1.extractLsb' 16 24
  limit := (words.1.extractLsb' 48 4 ++ words.1.extractLsb' 0 16).setWidth 64
  type := words.1.extractLsb' 40 4
  s := words.1.extractLsb' 44 1
  dpl := (words.1.extractLsb' 45 2).setWidth 32
  present := words.1.extractLsb' 47 1
  flags := words.1.extractLsb' 52 4
  reserved := words.2.extractLsb' 32 32

/-- A gate: the offset in the bits 0 to 15 and 48 to 63 and the second word. -/
structure GateDescriptor where
  offset : Word
  selector : BitVec 16
  -- the bits 32 to 39, with the stack table
  ist : BitVec 8
  type : BitVec 4
  s : BitVec 1
  dpl : BitVec 32
  present : BitVec 1
  reserved : BitVec 32
  deriving DecidableEq

def gateDescriptor (words : Word × Word) : GateDescriptor where
  offset := words.2.extractLsb' 0 32 ++ words.1.extractLsb' 48 16 ++ words.1.extractLsb' 0 16
  selector := words.1.extractLsb' 16 16
  ist := words.1.extractLsb' 32 8
  type := words.1.extractLsb' 40 4
  s := words.1.extractLsb' 44 1
  dpl := (words.1.extractLsb' 45 2).setWidth 32
  present := words.1.extractLsb' 47 1
  reserved := words.2.extractLsb' 32 32

end Csc412.Kernel
