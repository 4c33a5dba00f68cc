import Csc412.Lib.ByteMemory
import Csc412.Bootloader.Disk

/-!
# Finding a partition

`find_partition` of `build/mkbootdisk.c`. Sectors are numbered by 32 bits where they are
read, and by an `off_t` elsewhere, which holds every number that can come up.
-/

namespace Csc412.Bootloader
open Lib

abbrev Sector := Fin 512 → UInt8

/-- What the system does with the disk. -/
structure DiskFile where
  -- whether `lseek` reaches an offset
  seek : Nat → Bool
  -- the sector that `read` gets, if it gets all of it
  read : BitVec 32 → Option Sector

def DiskFile.ofSectors (content : BitVec 32 → Sector) : DiskFile :=
  ⟨fun _ => true, fun sectno => some (content sectno)⟩

def sectorsize : Nat := 512

namespace DiskFile

def readsect (d : DiskFile) (sectno : BitVec 32) : Except NoImage Sector :=
  if d.seek (sectno.toNat * sectorsize) then
    match d.read sectno with
    | some buf => .ok buf
    | none => .error (.usage "read")
  else .error (.usage "lseek")

end DiskFile

/-! ## Tables -/

def ptableOffset : Nat := 446
def ptableMagicOffset : Nat := 510
def ptableMagic1 : UInt8 := 0x55
def ptableMagic2 : UInt8 := 0xAA

def ptypeJosKern : UInt8 := 0x27
def ptypeDosExtended : UInt8 := 0x05
def ptypeW95Extended : UInt8 := 0x0F
def ptypeLinuxExtended : UInt8 := 0x85

structure Partitiondesc where
  type : UInt8
  lba_start : BitVec 32
  lba_length : BitVec 32

def Sector.byte (buf : Sector) (i : Nat) : UInt8 := buf (Fin.ofNat 512 i)

def Sector.isTable (buf : Sector) : Bool :=
  buf.byte ptableMagicOffset == ptableMagic1 && buf.byte (ptableMagicOffset + 1) == ptableMagic2

/-- `sizeof(struct Partitiondesc)` is 16. -/
def Sector.ptable (buf : Sector) : List Partitiondesc :=
  (List.range 4).map fun i =>
    let desc := fun k => buf.byte (ptableOffset + 16 * i + k)
    ⟨desc 4, BitVec.ofNat 32 (le (fun k => desc (8 + k)) 4),
      BitVec.ofNat 32 (le (fun k => desc (12 + k)) 4)⟩

def Partitiondesc.isExtended (desc : Partitiondesc) : Bool :=
  desc.type == ptypeDosExtended || desc.type == ptypeW95Extended || desc.type == ptypeLinuxExtended

/-! ## The search -/

/-- The partition that is used: its number, and `diskfd` and `maxoff` in sectors. -/
structure Partition where
  number : Nat
  start : Nat
  length : Nat
deriving DecidableEq

/-- The loop over the entries from `i` on, with the recursive call. -/
def searchTable (d : DiskFile) (find : Nat → Nat → Nat → Option (Except NoImage (Option Partition)))
    (partitionSect extendedSect partoff : Nat) :
    Nat → List Partitiondesc → Option (Except NoImage (Option Partition))
  | _, [] => some (.ok none)
  | i, desc :: ptable =>
    if desc.lba_length = 0 then searchTable d find partitionSect extendedSect partoff (i + 1) ptable
    else if desc.type = ptypeJosKern then
      let start := partitionSect + desc.lba_start.toNat
      if d.seek (start * sectorsize)
        then some (.ok (some ⟨partoff + i + 1, start, desc.lba_length.toNat⟩))
      else some (.error (.usage "cannot seek to partition start"))
    else if desc.isExtended then
      let innerSect := if extendedSect = 0 then desc.lba_start.toNat else extendedSect
      match find (desc.lba_start.toNat + extendedSect) innerSect
          (if partoff = 0 then 4 else partoff + 1) with
      | some (.ok none) => searchTable d find partitionSect extendedSect partoff (i + 1) ptable
      | r => r
    else searchTable d find partitionSect extendedSect partoff (i + 1) ptable

/-- `none`: the calls go deeper than `depth`. Otherwise the function calls `usage`, or it
returns 1 for a partition and 0 for none. -/
def findPartition (d : DiskFile) :
    Nat → Nat → Nat → Nat → Option (Except NoImage (Option Partition))
  | 0, _, _, _ => none
  | depth + 1, partitionSect, extendedSect, partoff =>
    match d.readsect (BitVec.ofNat 32 partitionSect) with
    | .error e => some (.error e)
    | .ok buf =>
      if buf.isTable then searchTable d (findPartition d depth) partitionSect extendedSect partoff 0
        buf.ptable
      else some (.ok none)

end Csc412.Bootloader
