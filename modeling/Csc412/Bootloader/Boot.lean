import Csc412.Lib.ByteMemory
import Csc412.Bootloader.Disk

/-!
# The boot loader

`boot.c`: the kernel is read from the disk into memory, segment by segment. The disk
answers through the registers of the ATA port. Loops take the number of rounds that they
may make.

Memory is flat, as `boot.c` sees it. The page tables that `bootstart.S` sets up map its
first GiB only: a kernel for addresses above that is loaded here and faults on the machine.
-/

namespace Csc412.Bootloader
open Lib

abbrev Word := BitVec 64

inductive Fault where
  | rounds
  -- the disk does not have the sector
  | device
  -- the boot loader overwrites itself
  | overwritten
deriving DecidableEq

/-! ## ELF -/

structure ElfHeader where
  e_magic : Nat
  e_entry : Nat
  e_phoff : Nat
  e_phnum : Nat

structure ElfProgram where
  p_offset : Nat
  p_va : Nat
  p_filesz : Nat
  p_memsz : Nat

def elfMagic : Nat := 0x464C457F

def elfHeader (byte : Nat → UInt8) : ElfHeader where
  e_magic := le byte 4
  e_entry := le (fun i => byte (0x18 + i)) 8
  e_phoff := le (fun i => byte (0x20 + i)) 8
  e_phnum := le (fun i => byte (0x38 + i)) 2

def sizeofElfProgram : Nat := 56

def elfProgram (byte : Nat → UInt8) : ElfProgram where
  p_offset := le (fun i => byte (0x08 + i)) 8
  p_va := le (fun i => byte (0x10 + i)) 8
  p_filesz := le (fun i => byte (0x20 + i)) 8
  p_memsz := le (fun i => byte (0x28 + i)) 8

/-! ## Memory -/

/-- What the boot loader itself uses (`bootstart.S`): the stack, which reaches down to
`bottom` from the boot sector, the boot sector and the first page tables. -/
def ownMemory (bottom : Nat) (a : Word) : Bool :=
  (bottom ≤ a.toNat ∧ a.toNat < 0x7E00) ∨ (0x8000 ≤ a.toNat ∧ a.toNat < 0xB000)

def store (bottom : Nat) (mem : ByteMemory) (dst : Word) (n : Nat) (byte : Nat → UInt8) :
    Except Fault ByteMemory :=
  if (List.range n).any (fun i => ownMemory bottom (dst + BitVec.ofNat 64 i))
    then .error .overwritten
  else .ok (mem.write dst n byte)

/-! ## Disk -/

/-- The registers from port 0x1F2 on. -/
structure Ata where
  count : BitVec 8
  lba0 : BitVec 8
  lba1 : BitVec 8
  lba2 : BitVec 8
  head : BitVec 8

/-- The sector that is asked for: one sector, of the first drive, by its number. -/
def Ata.sector (r : Ata) : Option Nat :=
  if r.count = 1 ∧ r.head &&& 0xF0 = 0xE0 then
    some (r.lba0.toNat + 2 ^ 8 * r.lba1.toNat + 2 ^ 16 * r.lba2.toNat +
      2 ^ 24 * (r.head.toNat % 16))
  else none

def readsect (bottom : Nat) (disk : Bytes) (mem : ByteMemory) (dst : Word) (srcSect : BitVec 32) :
    Except Fault ByteMemory :=
  let r : Ata := {
    count := 1
    lba0 := srcSect.setWidth 8
    lba1 := (srcSect >>> 8).setWidth 8
    lba2 := (srcSect >>> 16).setWidth 8
    head := (srcSect >>> 24 ||| 0xE0).setWidth 8 }
  match r.sector with
  | none => .error .device
  | some s =>
    if 512 * (s + 1) ≤ disk.length then store bottom mem dst 512 fun i => disk.getD (512 * s + i) 0
    else .error .device

/-! ## Loading -/

def readLoop (bottom : Nat) (disk : Bytes) :
    Nat → ByteMemory → Word → Word → BitVec 32 → Except Fault ByteMemory
  | fuel, mem, ptr, endPtr, srcSect =>
    if ptr < endPtr then
      match fuel with
      | 0 => .error .rounds
      | fuel + 1 => do
        let mem ← readsect bottom disk mem ptr srcSect
        readLoop bottom disk fuel mem (ptr + 512) endPtr (srcSect + 1)
    else .ok mem

def clearLoop (bottom : Nat) : Nat → ByteMemory → Word → Word → Except Fault ByteMemory
  | fuel, mem, endPtr, memsz =>
    if endPtr < memsz then
      match fuel with
      | 0 => .error .rounds
      | fuel + 1 => do
        let mem ← store bottom mem endPtr 1 fun _ => 0
        clearLoop bottom fuel mem (endPtr + 1) memsz
    else .ok mem

def readseg (bottom fuel : Nat) (disk : Bytes) (mem : ByteMemory) (ptr : Word) (srcSect : BitVec 32)
    (filesz memsz : Word) :
    Except Fault ByteMemory := do
  let endPtr := ptr + filesz
  let memsz := memsz + ptr
  let ptr := ptr &&& ~~~511
  let mem ← readLoop bottom disk fuel mem ptr endPtr srcSect
  clearLoop bottom fuel mem endPtr memsz

def elfhdr : Word := 0x10000

def bytesAt (mem : ByteMemory) (a : Word) : Nat → UInt8 := fun i => mem (a + BitVec.ofNat 64 i)

/-- The loop over the program headers from `ph` to `eph`. -/
def segLoop (bottom fuel : Nat) (disk : Bytes) :
    Nat → ByteMemory → Word → Word → Except Fault ByteMemory
  | rounds, mem, ph, eph =>
    if ph < eph then
      match rounds with
      | 0 => .error .rounds
      | rounds + 1 => do
        let p := elfProgram (bytesAt mem ph)
        let mem ← readseg bottom fuel disk mem (BitVec.ofNat 64 p.p_va)
          (BitVec.ofNat 32 (p.p_offset / 512 + 1))
          (BitVec.ofNat 64 p.p_filesz) (BitVec.ofNat 64 p.p_memsz)
        segLoop bottom fuel disk rounds mem (ph + BitVec.ofNat 64 sizeofElfProgram) eph
    else .ok mem

/-- Memory when the kernel is entered, and where. -/
def boot (bottom fuel : Nat) (disk : Bytes) (mem : ByteMemory) :
    Except Fault (Word × ByteMemory) := do
  let mem ← readseg bottom fuel disk mem elfhdr 1 4096 4096
  let hdr := elfHeader (bytesAt mem elfhdr)
  -- the loop until there is a kernel
  if hdr.e_magic ≠ elfMagic then .error .rounds
  else
    let ph := elfhdr + BitVec.ofNat 64 hdr.e_phoff
    let eph := ph + BitVec.ofNat 64 (hdr.e_phnum * sizeofElfProgram)
    let mem ← segLoop bottom fuel disk fuel mem ph eph
    .ok (BitVec.ofNat 64 (elfHeader (bytesAt mem elfhdr)).e_entry, mem)

end Csc412.Bootloader
