import Csc412.Lib.Fields
import Csc412.Kernel.Descriptor

/-!
# What descriptors encode

The words as their fields. The upper four bits of a limit are moved out of the word, so a
system segment has the limit it is given exactly up to 64 KiB: `setSysSegment_encodes_iff`.
A gate has all it is given.
-/

namespace Csc412.Kernel
open Lib

/-! ## Fields -/

/-- A type at its place, as the constants of `x86-64.h` have it. -/
def typeBits (type : BitVec 4) : Word := field 64 40 type

theorem dpl_field {dpl : BitVec 32} (hdpl : dpl.toNat ≤ 3) :
    dpl.signExtend 64 <<< 45 = field 64 45 (dpl.setWidth 2) := by
  have hsmall : dpl.signExtend 64 = (dpl.setWidth 2).setWidth 64 := by
    have hmsb : dpl.msb = false := by
      rw [BitVec.msb_eq_false_iff_two_mul_lt]
      omega
    apply BitVec.eq_of_toNat_eq
    rw [BitVec.signExtend_eq_setWidth_of_msb_false hmsb, BitVec.toNat_setWidth,
      BitVec.toNat_setWidth, BitVec.toNat_setWidth]
    omega
  rw [hsmall, field]

theorem dpl_setWidth {dpl : BitVec 32} (hdpl : dpl.toNat ≤ 3) :
    (dpl.setWidth 2).setWidth 32 = dpl := by
  apply BitVec.eq_of_toNat_eq
  rw [BitVec.toNat_setWidth, BitVec.toNat_setWidth]
  omega

/-- `(x & mask) << j` for the mask of `n` bits from bit `k` on. -/
theorem masked_shift {x mask : Word} {k n j : Nat} (hmask : mask = field 64 k (BitVec.allOnes n)) :
    (x &&& mask) <<< j = field 64 (k + j) (x.extractLsb' k n) := by
  rw [hmask, mask_field, field_shiftLeft]

theorem masked {x mask : Word} {n : Nat} (hmask : mask = field 64 0 (BitVec.allOnes n)) :
    x &&& mask = field 64 0 (x.extractLsb' 0 n) := by
  rw [hmask, mask_field]

theorem present_field : x86segP = field 64 47 1#1 := by decide

theorem extract_high (addr : Word) : (addr >>> 32).extractLsb' 0 32 = addr.extractLsb' 32 32 := by
  apply BitVec.eq_of_getLsbD_eq
  intro i hi
  rw [BitVec.getLsbD_extractLsb', BitVec.getLsbD_extractLsb', BitVec.getLsbD_ushiftRight,
    Nat.zero_add]

theorem extract_all (addr : Word) : addr.extractLsb' 0 64 = addr := by
  rw [← BitVec.setWidth_eq_extractLsb' (Nat.le_refl 64), BitVec.setWidth_eq]

/-- The parts of an address that two words hold. -/
theorem address_parts (addr : Word) {n m : Nat} (h : 32 = n + m) :
    (addr >>> 32).extractLsb' 0 32 ++ addr.extractLsb' n m ++ addr.extractLsb' 0 n =
        addr.extractLsb' 0 (32 + m + n) := by
  have hmid : addr.extractLsb' 32 32 ++ addr.extractLsb' n m = addr.extractLsb' n (32 + m) :=
    BitVec.extractLsb'_append_extractLsb'_eq_extractLsb' h
  have hlow : addr.extractLsb' n (32 + m) ++ addr.extractLsb' 0 n =
      addr.extractLsb' 0 (32 + m + n) :=
    BitVec.extractLsb'_append_extractLsb'_eq_extractLsb' (Nat.zero_add n).symm
  rw [extract_high, hmid, hlow]

theorem high_reserved (addr : Word) : (addr >>> 32).extractLsb' 32 32 = 0#32 := by
  apply BitVec.eq_of_getLsbD_eq
  intro i hi
  rw [BitVec.getLsbD_extractLsb', BitVec.getLsbD_ushiftRight,
    BitVec.getLsbD_of_ge addr _ (by omega), Bool.and_false, BitVec.getLsbD_zero]

section
variable (type : BitVec 4) {dpl : BitVec 32} (hdpl : dpl.toNat ≤ 3) (addr size : Word)
include hdpl

/-- The four high bits of the limit are not there. -/
theorem setSysSegment_fields : (setSysSegment (typeBits type) dpl addr size).1 =
    field 64 16 (addr.extractLsb' 0 24) ||| field 64 56 (addr.extractLsb' 24 8) ||| field 64 0
      ((size - 1).extractLsb' 0 16) |||
      field 64 40 type ||| field 64 45 (dpl.setWidth 2) ||| field 64 47 1#1 := by
  have hlow : (addr &&& 0x0000000000FFFFFF) <<< 16 = field 64 16 (addr.extractLsb' 0 24) :=
    masked_shift (by decide)
  have hhigh : (addr &&& 0x00000000FF000000) <<< 32 = field 64 56 (addr.extractLsb' 24 8) :=
    masked_shift (by decide)
  have hlimit : (size - 1) &&& 0x0FFFF = field 64 0 ((size - 1).extractLsb' 0 16) :=
    masked (by decide)
  have hlost : ((size - 1) &&& 0xF0000) <<< 48 = 0#64 := by
    rw [masked_shift (k := 16) (n := 4) (by decide)]
    exact field_out (by decide)
  rw [setSysSegment, hlow, hhigh, hlimit, hlost, dpl_field hdpl, present_field, typeBits,
    BitVec.or_zero]

theorem setGate_fields (function : Word) : (setGate (typeBits type) dpl function).1 =
    field 64 0 (function.extractLsb' 0 16) ||| field 64 16 8#16 ||| field 64 40 type ||| field 64 45
      (dpl.setWidth 2) |||
      field 64 47 1#1 ||| field 64 48 (function.extractLsb' 16 16) := by
  have hlow : function &&& 0x000000000000FFFF = field 64 0 (function.extractLsb' 0 16) :=
    masked (by decide)
  have hhigh : (function &&& 0x00000000FFFF0000) <<< 32 =
    field 64 48 (function.extractLsb' 16 16) := masked_shift (by decide)
  have hselector : (segselKernCode <<< 16).signExtend 64 = field 64 16 8#16 := by decide
  rw [setGate, hlow, hhigh, hselector, dpl_field hdpl, present_field, typeBits]

/-- All but the limit are as given. -/
theorem setSysSegment_descriptor : segmentDescriptor (setSysSegment (typeBits type) dpl addr size) =
    ⟨addr, ((size - 1).extractLsb' 0 16).setWidth 64, type, 0, dpl, 1, 0, 0⟩ := by
  have hbase : (addr >>> 32).extractLsb' 0 32 ++ addr.extractLsb' 24 8 ++
      addr.extractLsb' 0 24 = addr :=
    (address_parts addr rfl).trans (extract_all addr)
  have hlimit : (0#4 ++ (size - 1).extractLsb' 0 16).setWidth 64 =
      ((size - 1).extractLsb' 0 16).setWidth 64 := by
    apply BitVec.eq_of_getLsbD_eq
    intro i hi
    rw [BitVec.getLsbD_setWidth, BitVec.getLsbD_setWidth, BitVec.getLsbD_append]
    split
    · rfl
    · rw [BitVec.getLsbD_zero, BitVec.getLsbD_of_ge _ i (by omega)]
  have hlow : (setSysSegment (typeBits type) dpl addr size).2 = addr >>> 32 := rfl
  rw [segmentDescriptor, setSysSegment_fields type hdpl, hlow, high_reserved]
  simp (disch := decide) only [BitVec.extractLsb'_or, extract_field, extract_field_disjoint,
    BitVec.zero_or, BitVec.or_zero, hbase, hlimit, dpl_setWidth hdpl]
  rfl

theorem setGate_descriptor (function : Word) :
    gateDescriptor (setGate (typeBits type) dpl function) =
      ⟨function, 8, 0, type, 0, dpl, 1, 0⟩ := by
  have hoffset : (function >>> 32).extractLsb' 0 32 ++ function.extractLsb' 16 16 ++
      function.extractLsb' 0 16 = function :=
    (address_parts function rfl).trans (extract_all function)
  have hhigh : (setGate (typeBits type) dpl function).2 = function >>> 32 := rfl
  rw [gateDescriptor, setGate_fields type hdpl, hhigh, high_reserved]
  simp (disch := decide) only [BitVec.extractLsb'_or, extract_field, extract_field_disjoint,
    BitVec.zero_or, BitVec.or_zero, hoffset, dpl_setWidth hdpl]
  rfl

/-- A segment of code or data has one word, and its base and limit are zero. -/
theorem setAppSegment_descriptor (flags : BitVec 4) :
    segmentDescriptor (setAppSegment (typeBits type ||| field 64 52 flags) dpl, 0) =
        ⟨0, 0, type, 1, dpl, 1, flags, 0⟩ := by
  have hs : x86segS = field 64 44 1#1 := by decide
  rw [segmentDescriptor, setAppSegment, typeBits, hs, dpl_field hdpl, present_field]
  simp (disch := decide) only [BitVec.extractLsb'_or, extract_field, extract_field_disjoint,
    BitVec.zero_or, BitVec.or_zero, dpl_setWidth hdpl]
  rfl

end

/-! ## System segments -/

/-- The descriptor is what is given, and nothing else is set in it. -/
def Encodes (words : Word × Word) (type : BitVec 4) (dpl : BitVec 32) (addr size : Word) : Prop :=
  segmentDescriptor words = ⟨addr, size - 1, type, 0, dpl, 1, 0, 0⟩

theorem limit_iff {size : Word} (hsize : 1 ≤ size.toNat) :
    ((size - 1).extractLsb' 0 16).setWidth 64 = size - 1 ↔ size.toNat ≤ 2 ^ 16 := by
  have hlast : (size - 1).toNat = size.toNat - 1 := by bv_omega
  rw [← BitVec.toNat_inj, BitVec.toNat_setWidth, BitVec.extractLsb'_toNat, hlast,
    Nat.shiftRight_zero]
  omega

/-- The one system segment there is has the task state as given. -/
theorem segmentsInit_task (kernelTaskDescriptor : Word) :
    ∃ lo hi, (segmentsInit kernelTaskDescriptor).drop 5 = [lo, hi] ∧
    Encodes (lo, hi) 9 0 kernelTaskDescriptor sizeofTaskstate := by
  refine ⟨_, _, rfl, ?_⟩
  have htype : x86segTss = typeBits 9 := by decide
  rw [Encodes, htype]
  have hlimit := (limit_iff (show 1 ≤ sizeofTaskstate.toNat by decide)).mpr (by decide)
  exact (setSysSegment_descriptor 9 (by decide) _ _).trans (by rw [hlimit])

theorem setSysSegment_encodes_iff (type : BitVec 4) {dpl : BitVec 32} (hdpl : dpl.toNat ≤ 3)
    (addr : Word) {size : Word} (hsize : 1 ≤ size.toNat) :
    Encodes (setSysSegment (typeBits type) dpl addr size) type dpl addr
        size ↔ size.toNat ≤ 2 ^ 16 := by
  rw [Encodes, setSysSegment_descriptor type hdpl, ← limit_iff hsize]
  constructor
  · intro h
    exact congrArg SegmentDescriptor.limit h
  · intro h
    rw [h]

theorem setSysSegment_encodes_iff_task :
    Encodes (setSysSegment (typeBits 9) 0 0x50000 sizeofTaskstate) 9 0 0x50000 sizeofTaskstate ↔
    sizeofTaskstate.toNat ≤ 2 ^ 16 :=
  setSysSegment_encodes_iff 9 (by decide) 0x50000 (by decide)

/-- The limit of a segment of 64 KiB and one byte is zero. -/
theorem setSysSegment_truncated : (1 ≤ (0x10001 : Word).toNat ∧ (0x10001 : Word).toNat ≤ 2 ^ 20) ∧
    ¬ Encodes (setSysSegment (typeBits 9) 0 0 0x10001) 9 0 0 0x10001 ∧
    (segmentDescriptor (setSysSegment (typeBits 9) 0 0 0x10001)).limit = 0 := by
  refine ⟨by decide, ?_, by decide⟩
  rw [Encodes]
  decide

end Csc412.Kernel
