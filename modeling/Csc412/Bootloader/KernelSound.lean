import Csc412.Bootloader.BootSound
import Csc412.Lib.Fallible

/-!
# Loading the kernel

The headers are read into their page and stay there, and every segment stays as it was
loaded. So the kernel that the disk was made from is in memory when it is entered.
-/

namespace Csc412.Bootloader
open Lib

/-! ## Kernel files -/

/-- The header in the page at `elfhdr`. -/
def header (kernel : Bytes) : ElfHeader := elfHeader fun i => kernel.getD i 0

def program (kernel : Bytes) (j : Nat) : ElfProgram :=
  elfProgram fun i => kernel.getD ((header kernel).e_phoff + sizeofElfProgram * j + i) 0

/-- The segment lies in the kernel file, and its sectors in memory that is free. -/
structure ElfProgram.Fits (p : ElfProgram) (bottom : Nat) (kernel : Bytes) : Prop where
  memsz : p.p_filesz ≤ p.p_memsz
  inside : p.p_offset + p.p_filesz ≤ kernel.length
  aligned : p.p_va % 512 = p.p_offset % 512
  noWrap : p.hi < 2 ^ 64
  scratch : ∀ a, p.lo ≤ a → a < p.hi → ¬ (0x10000 ≤ a ∧ a < 0x11000)
  own : ∀ a : Word, p.lo ≤ a.toNat → a.toNat < p.hi → ownMemory bottom a = false

/-- A kernel file that the boot loader can load, where it uses the stack down to `bottom`. -/
structure Bootable (bottom : Nat) (kernel : Bytes) : Prop where
  size : kernel.length < 2 ^ 36
  magic : (header kernel).e_magic = elfMagic
  elfHeader : 64 ≤ kernel.length
  programs : (header kernel).e_phoff + sizeofElfProgram * (header kernel).e_phnum ≤
    min kernel.length 4096
  fits : ∀ j < (header kernel).e_phnum, (program kernel j).Fits bottom kernel
  disjoint : ∀ i < (header kernel).e_phnum, ∀ j < (header kernel).e_phnum, i ≠ j →
    ∀ a, (program kernel i).lo ≤ a → a < (program kernel i).hi →
    ¬ ((program kernel j).lo ≤ a ∧ a < (program kernel j).hi)

/-- The headers are in their page. -/
def Scratch (kernel : Bytes) (mem : ByteMemory) : Prop :=
  ∀ i < 4096, mem (BitVec.ofNat 64 (0x10000 + i)) = kernel.getD i 0

def phAt (kernel : Bytes) (j : Nat) : Word :=
  BitVec.ofNat 64 (0x10000 + ((header kernel).e_phoff + sizeofElfProgram * j))

section
variable {bottom j : Nat} {image kernel : Bytes} {p q : ElfProgram} {mem mem' : ByteMemory}

theorem ElfProgram.Fits.loadable (hp : p.Fits bottom kernel) (himage : HoldsKernel image kernel)
    (hsize : kernel.length < 2 ^ 36) :
    p.Loadable bottom image := by
  have haligned := hp.aligned
  have hinside := hp.inside
  have himage₁ := himage.size
  have himage₂ := himage.long
  have hsectors : p.p_offset / 512 + p.sectors = (p.p_offset + p.p_filesz + 511) / 512 := by
    rw [ElfProgram.sectors]
    omega
  exact ⟨hp.memsz, haligned, hp.noWrap, hp.own, by omega, by omega⟩

theorem Loaded.frame (hloaded : p.Loaded kernel mem) (hmemsz : p.p_filesz ≤ p.p_memsz)
    (hwrap : p.hi < 2 ^ 64)
    (hframe : ∀ a : Word, p.lo ≤ a.toNat → a.toNat < p.hi → mem' a = mem a) :
    p.Loaded kernel mem' := by
  have htop : p.p_va + p.p_memsz ≤ p.hi := by
    rw [ElfProgram.hi]
    omega
  have hlo : p.lo ≤ p.p_va := Nat.mul_div_le _ _
  have hsame : ∀ i < p.p_memsz, mem' (BitVec.ofNat 64 (p.p_va + i)) =
      mem (BitVec.ofNat 64 (p.p_va + i)) := by
    intro i hi
    have haddr : (BitVec.ofNat 64 (p.p_va + i)).toNat = p.p_va + i := Nat.mod_eq_of_lt (by omega)
    exact hframe _ (by omega) (by omega)
  constructor
  · intro i hi
    rw [hsame i (by omega)]
    exact hloaded.1 i hi
  · intro i hlow hi
    rw [hsame i hi]
    exact hloaded.2 i hlow hi

theorem elfHeader_congr {f g : Nat → UInt8} (h : ∀ i < 64, f i = g i) :
    elfHeader f = elfHeader g := by
  rw [elfHeader, elfHeader, le_congr fun i hi => h i (by omega),
    le_congr fun i hi => h (0x18 + i) (by omega),
    le_congr fun i hi => h (0x20 + i) (by omega), le_congr fun i hi => h (0x38 + i) (by omega)]

theorem elfProgram_congr {f g : Nat → UInt8} (h : ∀ i < sizeofElfProgram, f i = g i) :
    elfProgram f = elfProgram g := by
  rw [sizeofElfProgram] at h
  rw [elfProgram, elfProgram, le_congr fun i hi => h (0x08 + i) (by omega),
    le_congr fun i hi => h (0x10 + i) (by omega),
    le_congr fun i hi => h (0x20 + i) (by omega), le_congr fun i hi => h (0x28 + i) (by omega)]

theorem header_eq (hs : Scratch kernel mem) : elfHeader (bytesAt mem elfhdr) = header kernel := by
  apply elfHeader_congr
  intro i hi
  rw [bytesAt, elfhdr, ← hs i (by omega), BitVec.ofNat_add]
  rfl

theorem program_eq (hs : Scratch kernel mem)
    (hj : (header kernel).e_phoff + sizeofElfProgram * j + sizeofElfProgram ≤ 4096) :
    elfProgram (bytesAt mem (phAt kernel j)) = program kernel j := by
  apply elfProgram_congr
  intro i hi
  rw [bytesAt, phAt, ← hs _ (by omega), ← BitVec.ofNat_add, Nat.add_assoc]

theorem phAt_succ : phAt kernel j + BitVec.ofNat 64 sizeofElfProgram = phAt kernel (j + 1) := by
  rw [phAt, phAt, ← BitVec.ofNat_add, Nat.mul_succ, Nat.add_assoc, Nat.add_assoc]

theorem phAt_lt
    (hprograms : (header kernel).e_phoff + sizeofElfProgram * (header kernel).e_phnum ≤ 4096)
    (hj : j ≤ (header kernel).e_phnum) : phAt kernel j < phAt kernel (header kernel).e_phnum ↔
    j < (header kernel).e_phnum := by
  rw [sizeofElfProgram] at hprograms
  rw [BitVec.lt_def, phAt, phAt, BitVec.toNat_ofNat, BitVec.toNat_ofNat, sizeofElfProgram,
    Nat.mod_eq_of_lt (by omega), Nat.mod_eq_of_lt (by omega)]
  omega

/-! ## The run -/

theorem segLoop_loaded (hk : Bootable bottom kernel) (himage : HoldsKernel image kernel) (n : Nat) :
    ∀ {j : Nat} {mem : ByteMemory}, j + n = (header kernel).e_phnum → Scratch kernel mem →
      (∀ i < j, (program kernel i).Loaded kernel mem) →
      ∃ mem', (∀ fuel rounds, 2 ^ 64 ≤ fuel → n ≤ rounds →
          segLoop bottom fuel image rounds mem (phAt kernel j)
            (phAt kernel (header kernel).e_phnum) = .ok mem') ∧
        Scratch kernel mem' ∧ ∀ i < (header kernel).e_phnum,
        (program kernel i).Loaded kernel mem' := by
  have hprograms := Nat.le_trans hk.programs (Nat.min_le_right _ _)
  induction n with
  | zero =>
    intro j mem hj hs hloaded
    obtain rfl : j = (header kernel).e_phnum := hj
    refine ⟨mem, ?_, hs, hloaded⟩
    intro fuel rounds _ _
    rw [segLoop.eq_def]
    exact if_neg fun hlt => Nat.lt_irrefl _ ((phAt_lt hprograms (Nat.le_refl _)).mp hlt)
  | succ n ih =>
    intro j mem hj hs hloaded
    have hlt : j < (header kernel).e_phnum := by omega
    have hfits := hk.fits j hlt
    have hroom : (header kernel).e_phoff + sizeofElfProgram * j + sizeofElfProgram ≤ 4096 := by
      have hmul := Nat.mul_le_mul_left sizeofElfProgram (Nat.succ_le_of_lt hlt)
      rw [Nat.mul_succ] at hmul
      omega
    obtain ⟨mem₁, hread, hnew, hframe⟩ := readseg_loaded himage (hfits.loadable himage hk.size) mem
    -- the headers are in another place, and so are the segments before
    have hs₁ : Scratch kernel mem₁ := by
      intro i hi
      have haddr : (BitVec.ofNat 64 (0x10000 + i)).toNat = 0x10000 + i :=
        Nat.mod_eq_of_lt (by omega)
      rw [hframe _ fun hin => hfits.scratch _ hin.1 hin.2 (by rw [haddr]; omega)]
      exact hs i hi
    have hloaded₁ : ∀ i < j + 1, (program kernel i).Loaded kernel mem₁ := by
      intro i hi
      by_cases hij : i = j
      · rw [hij]
        exact hnew
      · have hfits' := hk.fits i (by omega)
        apply Loaded.frame (hloaded i (by omega)) hfits'.memsz hfits'.noWrap
        intro a hlo hhi
        exact hframe a (hk.disjoint i (by omega) j hlt hij _ hlo hhi)
    obtain ⟨mem', hrest, hs', hloaded'⟩ := ih (by omega) hs₁ hloaded₁
    refine ⟨mem', ?_, hs', hloaded'⟩
    intro fuel rounds hfuel hrounds
    obtain ⟨k, rfl⟩ := Nat.exists_eq_add_of_le' (Nat.le_trans (Nat.le_add_left 1 n) hrounds)
    rw [segLoop.eq_def]
    refine Eq.trans (if_pos ((phAt_lt hprograms (Nat.le_of_lt hlt)).mpr hlt)) ?_
    simp only [program_eq hs hroom, phAt_succ]
    rw [hread fuel hfuel]
    exact hrest fuel k hfuel (Nat.le_of_succ_le_succ hrounds)

/-- The page of the headers, as a segment. -/
def scratchProgram : ElfProgram := ⟨0, 0x10000, 4096, 4096⟩

theorem scratch_loadable (himage : HoldsKernel image kernel) :
    scratchProgram.Loadable bottom image := by
  have hlo : scratchProgram.lo = 0x10000 := by decide
  have hhi : scratchProgram.hi = 0x11000 := by decide
  have hsectors : scratchProgram.sectors = 8 := by decide
  have hfirst : scratchProgram.p_offset / 512 = 0 := by decide
  have hleast := himage.least
  refine ⟨by decide, by decide, ?_, ?_, ?_, ?_⟩
  · rw [hhi]
    decide
  · intro a h _
    rw [hlo] at h
    rw [ownMemory, decide_eq_false_iff_not]
    omega
  · rw [hfirst, hsectors]
    decide
  · rw [hfirst, hsectors]
    omega

theorem scratch_loaded (himage : HoldsKernel image kernel) (mem : ByteMemory) :
    ∃ mem', (∀ fuel, 2 ^ 64 ≤ fuel → readseg bottom fuel image mem elfhdr 1 4096 4096 = .ok mem') ∧
    Scratch kernel mem' := by
  obtain ⟨mem', hread, hloaded, -⟩ :=
    @readseg_loaded bottom image kernel _ himage (scratch_loadable himage) mem
  refine ⟨mem', ?_, ?_⟩
  · intro fuel hfuel
    have hrun := hread fuel hfuel
    simp only [scratchProgram] at hrun
    exact hrun
  · intro i hi
    have hbyte := hloaded.1 i (by simp only [scratchProgram]; exact hi)
    simp only [scratchProgram, Nat.zero_add] at hbyte
    exact hbyte

theorem boot_loads (hk : Bootable bottom kernel) (himage : HoldsKernel image kernel)
    (mem : ByteMemory) :
    ∃ mem', (∀ fuel, 2 ^ 64 ≤ fuel →
      boot bottom fuel image mem = .ok (BitVec.ofNat 64 (header kernel).e_entry, mem')) ∧
      ∀ j < (header kernel).e_phnum, (program kernel j).Loaded kernel mem' := by
  obtain ⟨mem₁, hread, hs₁⟩ := @scratch_loaded bottom image kernel himage mem
  obtain ⟨mem', hrest, hs', hloaded'⟩ :=
    segLoop_loaded hk himage (header kernel).e_phnum (Nat.zero_add _) hs₁ nofun
  refine ⟨mem', ?_, hloaded'⟩
  intro fuel hfuel
  have hprograms := Nat.le_trans hk.programs (Nat.min_le_right _ _)
  rw [sizeofElfProgram] at hprograms
  have hph : elfhdr + BitVec.ofNat 64 (header kernel).e_phoff = phAt kernel 0 := by
    rw [phAt, Nat.mul_zero, Nat.add_zero, BitVec.ofNat_add]
    rfl
  have heph : phAt kernel 0 + BitVec.ofNat 64 ((header kernel).e_phnum * sizeofElfProgram) =
      phAt kernel (header kernel).e_phnum := by
    rw [phAt, phAt, ← BitVec.ofNat_add, Nat.mul_zero, Nat.add_zero, Nat.mul_comm, Nat.add_assoc]
  rw [boot, hread fuel hfuel, ok_bind, header_eq hs₁, if_neg (not_not.mpr hk.magic), hph]
  simp only [heph]
  rw [hrest fuel fuel hfuel (by omega), ok_bind, header_eq hs']

theorem boot_image_round_trip {bootsector : Bytes} (hb : bootsector.length ≤ 510)
    (hk : Bootable bottom kernel) :
    (∀ results, Progress results (512 * 1025 + kernel.length) → ∃ image,
      mkbootdisk results bootsector [.file kernel] = .ok image) ∧
      ∀ results image, mkbootdisk results bootsector [.file kernel] = .ok image → ∀ mem, ∃ mem',
        (∀ fuel, 2 ^ 64 ≤ fuel → boot bottom fuel image mem =
          .ok (BitVec.ofNat 64 (header kernel).e_entry, mem')) ∧
          ∀ j < (header kernel).e_phnum, (program kernel j).Loaded kernel mem' := by
  constructor
  · intro results hp
    exact mkbootdisk_done hb hp
  · intro results image himage mem
    exact boot_loads hk (mkbootdisk_image hb himage) mem

end

/-- A kernel with one segment, of eight bytes and eight zeros at 0x100078. -/
def tinyKernel : Bytes :=
  [0x7F, 0x45, 0x4C, 0x46] ++ List.replicate 0x14 0 ++ [0x78, 0, 0x10, 0, 0, 0, 0, 0] ++
    [64, 0, 0, 0, 0, 0, 0, 0] ++
    List.replicate 0x10 0 ++ [1, 0, 0, 0, 0, 0, 0, 0] ++
    -- the program header
    List.replicate 8 0 ++ [120, 0, 0, 0, 0, 0, 0, 0] ++ [0x78, 0, 0x10, 0, 0, 0, 0, 0] ++
      List.replicate 8 0 ++
    [8, 0, 0, 0, 0, 0, 0, 0] ++ [16, 0, 0, 0, 0, 0, 0, 0] ++ List.replicate 8 0 ++
    [1, 2, 3, 4, 5, 6, 7, 8]

theorem tinyKernel_bootable : Bootable 0x7000 tinyKernel := by
  have hlen : tinyKernel.length = 128 := rfl
  have hoff : (header tinyKernel).e_phoff = 64 := by decide
  have hnum : (header tinyKernel).e_phnum = 1 := by decide
  have hlo : (program tinyKernel 0).lo = 0x100000 := by decide
  have hhi : (program tinyKernel 0).hi = 0x100200 := by decide
  have hend : (program tinyKernel 0).p_offset + (program tinyKernel 0).p_filesz = 128 := by decide
  refine ⟨by omega, by decide, by omega, ?_, ?_, ?_⟩
  · rw [hoff, hnum, hlen]
    decide
  · intro j hj
    obtain rfl : j = 0 := by omega
    refine ⟨by decide, by omega, by decide, ?_, ?_, ?_⟩
    · rw [hhi]
      decide
    · rw [hlo]
      omega
    · intro a h _
      rw [hlo] at h
      rw [ownMemory, decide_eq_false_iff_not]
      omega
  · intro i hi j hj hij
    omega

/-- Writes of at most 100 bytes, after one that is interrupted. -/
theorem boot_image_tinyKernel :
    ∃ image, mkbootdisk (.interrupted :: List.replicate (512 * 1025 + tinyKernel.length)
      (.wrote 100)) [0xEB, 0xFE] [.file tinyKernel] = .ok image ∧
      ∀ mem, ∃ mem', (∀ fuel, 2 ^ 64 ≤ fuel → boot 0x7000 fuel image mem = .ok (0x100078, mem')) ∧
        (program tinyKernel 0).Loaded tinyKernel mem' := by
  obtain ⟨hdone, hloads⟩ :=
    @boot_image_round_trip 0x7000 tinyKernel [0xEB, 0xFE] (by decide) tinyKernel_bootable
  have hp : Progress (.interrupted :: List.replicate (512 * 1025 + tinyKernel.length) (.wrote 100))
      (512 * 1025 + tinyKernel.length) := by
    constructor
    · intro r hr
      obtain rfl | hr := List.mem_cons.mp hr
      · exact .inl rfl
      · exact .inr ⟨100, by decide, List.eq_of_mem_replicate hr⟩
    · rw [List.countP_cons_of_neg (by simp), List.countP_replicate]
      exact Nat.le_refl _
  obtain ⟨image, himage⟩ := hdone _ hp
  refine ⟨image, himage, ?_⟩
  intro mem
  obtain ⟨mem', hboot, hloaded⟩ := hloads _ image himage mem
  have hentry : (header tinyKernel).e_entry = 0x100078 := by decide
  rw [hentry] at hboot
  exact ⟨mem', hboot, hloaded 0 (by decide)⟩

end Csc412.Bootloader
