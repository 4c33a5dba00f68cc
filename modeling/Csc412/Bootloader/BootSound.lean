import Csc412.Bootloader.DiskSound
import Csc412.Bootloader.Boot
import Csc412.Lib.Mask

/-!
# Loading one segment

A loop over sectors is one write of a block, and clearing is another one. So a segment ends
up where its header says, and nothing is changed beyond its sectors.
-/

namespace Csc412.Bootloader
open Lib

/-! ## One sector -/

section
variable {bottom fuel : Nat} {disk image kernel : Bytes} {mem : ByteMemory} {ptr endPtr dst : Word}
    {src : BitVec 32}

theorem head_bits {x : Nat} (hx : x < 16) :
    (BitVec.ofNat 8 x ||| 0xE0) &&& 0xF0 = 0xE0 ∧ (BitVec.ofNat 8 x ||| 0xE0).toNat % 16 = x := by
  revert x
  decide

theorem sector_eq (hsrc : src.toNat < 2 ^ 28) :
    Ata.sector ⟨1, src.setWidth 8, (src >>> 8).setWidth 8, (src >>> 16).setWidth 8,
        (src >>> 24 ||| 0xE0).setWidth 8⟩ = some src.toNat := by
  have hhead : (src >>> 24 ||| 0xE0).setWidth 8 = BitVec.ofNat 8 (src.toNat / 2 ^ 24) ||| 0xE0 := by
    rw [BitVec.setWidth_or]
    congr 1
    apply BitVec.eq_of_toNat_eq
    rw [BitVec.toNat_setWidth, BitVec.toNat_ushiftRight, Nat.shiftRight_eq_div_pow,
      BitVec.toNat_ofNat]
  obtain ⟨hmode, hlow⟩ := @head_bits (src.toNat / 2 ^ 24) (by omega)
  rw [Ata.sector, hhead, if_pos ⟨rfl, hmode⟩, hlow]
  simp only [BitVec.toNat_setWidth, BitVec.toNat_ushiftRight, Nat.shiftRight_eq_div_pow]
  congr 1
  omega

theorem store_ok {n : Nat} {byte : Nat → UInt8} (hn : dst.toNat + n < 2 ^ 64)
    (hown : ∀ a : Word, dst.toNat ≤ a.toNat → a.toNat < dst.toNat + n →
      ownMemory bottom a = false) :
    store bottom mem dst n byte = .ok (mem.write dst n byte) := by
  rw [store, if_neg]
  rw [Bool.not_eq_true, List.any_eq_false]
  intro i hi
  have hi := List.mem_range.mp hi
  have haddr : (dst + BitVec.ofNat 64 i).toNat = dst.toNat + i := by
    rw [BitVec.toNat_add, BitVec.toNat_ofNat]
    omega
  rw [hown _ (by omega) (by omega)]
  exact Bool.false_ne_true

theorem readsect_ok (hsrc : src.toNat < 2 ^ 28) (hdisk : 512 * (src.toNat + 1) ≤ disk.length)
    (hn : dst.toNat + 512 < 2 ^ 64)
    (hown : ∀ a : Word, dst.toNat ≤ a.toNat → a.toNat < dst.toNat + 512 →
      ownMemory bottom a = false) :
    readsect bottom disk mem dst src =
        .ok (mem.write dst 512 fun i => disk.getD (512 * src.toNat + i) 0) := by
  rw [readsect]
  simp only [sector_eq hsrc]
  rw [if_pos hdisk, store_ok hn hown]

/-! ## The loops -/

theorem readLoop_ok (n : Nat) : ∀ {fuel : Nat} {mem : ByteMemory} {ptr : Word} {src : BitVec 32},
    n ≤ fuel →
    ptr.toNat + 512 * n < 2 ^ 64 → endPtr.toNat ≤ ptr.toNat + 512 * n →
    (n ≠ 0 → ptr.toNat + 512 * (n - 1) < endPtr.toNat) →
    src.toNat + n ≤ 2 ^ 28 → 512 * (src.toNat + n) ≤ disk.length →
    (∀ a : Word, ptr.toNat ≤ a.toNat → a.toNat < ptr.toNat + 512 * n → ownMemory bottom a = false) →
    readLoop bottom disk fuel mem ptr endPtr src =
        .ok (mem.write ptr (512 * n) fun i => disk.getD (512 * src.toNat + i) 0) := by
  induction n with
  | zero =>
    intro fuel mem ptr src _ _ hend _ _ _ _
    have hdone : ¬ ptr < endPtr := by
      rw [BitVec.lt_def]
      omega
    rw [readLoop.eq_def]
    exact if_neg hdone
  | succ n ih =>
    intro fuel mem ptr src hfuel hwrap hend hmore hsrc hdisk hown
    obtain ⟨k, rfl⟩ := Nat.exists_eq_add_of_le' (Nat.le_trans (Nat.le_add_left 1 n) hfuel)
    have hmore := hmore (Nat.succ_ne_zero n)
    rw [Nat.add_sub_cancel] at hmore
    rw [Nat.mul_succ, ← Nat.add_assoc] at hwrap hend
    simp only [Nat.mul_succ, ← Nat.add_assoc] at hown
    rw [Nat.mul_succ]
    have hround : ptr < endPtr := by
      rw [BitVec.lt_def]
      omega
    have hread := @readsect_ok bottom disk mem ptr src (by omega) (by omega) (by omega)
      fun a h₁ h₂ => hown a h₁ (by omega)
    obtain ⟨ptr', hptr'⟩ : ∃ ptr', ptr' = ptr + 512 := ⟨_, rfl⟩
    have hptr : ptr'.toNat = ptr.toNat + 512 := by
      rw [hptr', BitVec.toNat_add, show (512 : Word).toNat = 512 from rfl]
      omega
    obtain ⟨src', hsrc'⟩ : ∃ src', src' = src + 1 := ⟨_, rfl⟩
    have hnext : src'.toNat = src.toNat + 1 := by
      rw [hsrc', BitVec.toNat_add, show (1 : BitVec 32).toNat = 1 from rfl]
      omega
    have hrest := @ih k (mem.write ptr 512 fun i => disk.getD (512 * src.toNat + i) 0) ptr' src'
      (by omega) (by omega)
      (by omega) (by omega) (by omega) (by omega) fun a h₁ h₂ => hown a (by omega) (by omega)
    rw [readLoop.eq_def]
    refine Eq.trans (if_pos hround) ?_
    dsimp only
    rw [hread, ok_bind, ← hptr', ← hsrc']
    refine Eq.trans hrest ?_
    -- the sector and the ones after it
    rw [hptr', show (ptr + 512 : Word) = ptr + BitVec.ofNat 64 512 from rfl,
      ByteMemory.write_write (by omega), hnext, Nat.add_comm 512 (512 * n)]
    congr 2
    funext i
    split
    · rfl
    · rename_i hi
      rw [Nat.mul_succ, Nat.add_assoc, Nat.add_sub_of_le (Nat.le_of_not_lt hi)]

theorem clearLoop_ok (n : Nat) : ∀ {fuel : Nat} {mem : ByteMemory} {endPtr memsz : Word}, n ≤ fuel →
    endPtr.toNat + n = memsz.toNat →
    (∀ a : Word, endPtr.toNat ≤ a.toNat → a.toNat < endPtr.toNat + n → ownMemory bottom a = false) →
    clearLoop bottom fuel mem endPtr memsz = .ok (mem.write endPtr n fun _ => 0) := by
  induction n with
  | zero =>
    intro fuel mem endPtr memsz _ hend _
    have hdone : ¬ endPtr < memsz := by
      rw [BitVec.lt_def]
      omega
    rw [clearLoop.eq_def]
    exact if_neg hdone
  | succ n ih =>
    intro fuel mem endPtr memsz hfuel hend hown
    obtain ⟨k, rfl⟩ := Nat.exists_eq_add_of_le' (Nat.le_trans (Nat.le_add_left 1 n) hfuel)
    have hmemsz := memsz.isLt
    have hround : endPtr < memsz := by
      rw [BitVec.lt_def]
      omega
    have hnext : (endPtr + 1).toNat = endPtr.toNat + 1 := by
      rw [BitVec.toNat_add, show (1 : Word).toNat = 1 from rfl]
      omega
    have hstore := @store_ok bottom mem endPtr 1 (fun _ => 0) (by omega)
      fun a h₁ h₂ => hown a h₁ (by omega)
    have hrest := @ih k (mem.write endPtr 1 fun _ => 0) (endPtr + 1) memsz (by omega) (by omega)
      fun a h₁ h₂ => hown a (by omega) (by omega)
    rw [clearLoop.eq_def]
    refine Eq.trans (if_pos hround) ?_
    dsimp only
    rw [hstore, ok_bind]
    refine Eq.trans hrest ?_
    rw [show (endPtr + 1 : Word) = endPtr + BitVec.ofNat 64 1 from rfl,
      ByteMemory.write_write (by omega), Nat.add_comm 1 n]
    congr 2
    funext i
    split <;> rfl

/-! ## One segment -/

theorem roundDown_toNat (a : Word) : (a &&& ~~~(511 : Word)).toNat = 512 * (a.toNat / 512) :=
  (clearLow_toNat (w := 64) (k := 9) (by decide) a).trans (Nat.mul_comm _ _)

end

namespace ElfProgram

/-- The first address of the sectors of a segment. -/
def lo (p : ElfProgram) : Nat := 512 * (p.p_va / 512)

/-- The address after the sectors of a segment. -/
def hi (p : ElfProgram) : Nat := 512 * ((p.p_va + p.p_memsz + 511) / 512)

def sectors (p : ElfProgram) : Nat := (p.p_va % 512 + p.p_filesz + 511) / 512

def Loaded (p : ElfProgram) (kernel : Bytes) (mem : ByteMemory) : Prop :=
  (∀ i < p.p_filesz, mem (BitVec.ofNat 64 (p.p_va + i)) = kernel.getD (p.p_offset + i) 0) ∧
    ∀ i, p.p_filesz ≤ i → i < p.p_memsz → mem (BitVec.ofNat 64 (p.p_va + i)) = 0

structure Loadable (p : ElfProgram) (bottom : Nat) (image : Bytes) : Prop where
  memsz : p.p_filesz ≤ p.p_memsz
  aligned : p.p_va % 512 = p.p_offset % 512
  noWrap : p.hi < 2 ^ 64
  own : ∀ a : Word, p.lo ≤ a.toNat → a.toNat < p.hi → ownMemory bottom a = false
  number : p.p_offset / 512 + 1 + p.sectors ≤ 2 ^ 28
  disk : 512 * (p.p_offset / 512 + 1 + p.sectors) ≤ image.length

end ElfProgram

section
variable {bottom : Nat} {image kernel : Bytes} {p : ElfProgram}

theorem sectors_bound (hmemsz : p.p_filesz ≤ p.p_memsz) : p.lo + 512 * p.sectors ≤ p.hi := by
  rw [ElfProgram.lo, ElfProgram.hi, ElfProgram.sectors]
  omega

theorem readseg_writes (hp : p.Loadable bottom image) (mem : ByteMemory) {fuel : Nat}
    (hfuel : 2 ^ 64 ≤ fuel) :
    readseg bottom fuel image mem (BitVec.ofNat 64 p.p_va) (BitVec.ofNat 32 (p.p_offset / 512 + 1))
      (BitVec.ofNat 64 p.p_filesz)
        (BitVec.ofNat 64 p.p_memsz) =
      .ok ((mem.write (BitVec.ofNat 64 p.lo) (512 * p.sectors)
        fun i => image.getD (512 * (p.p_offset / 512 + 1) + i) 0).write
        (BitVec.ofNat 64 (p.p_va + p.p_filesz)) (p.p_memsz - p.p_filesz) fun _ => 0) := by
  have hbound := sectors_bound hp.memsz
  have hwrap := hp.noWrap
  have hmemsz := hp.memsz
  have hnumber := hp.number
  have hdisk := hp.disk
  have htop : p.p_va + p.p_memsz ≤ p.hi := by
    rw [ElfProgram.hi]
    omega
  have hlo : p.lo ≤ p.p_va := Nat.mul_div_le _ _
  have hva : (BitVec.ofNat 64 p.p_va).toNat = p.p_va := Nat.mod_eq_of_lt (by omega)
  have hend : BitVec.ofNat 64 p.p_va + BitVec.ofNat 64 p.p_filesz =
    BitVec.ofNat 64 (p.p_va + p.p_filesz) := (BitVec.ofNat_add _ _).symm
  have hmem : BitVec.ofNat 64 p.p_memsz + BitVec.ofNat 64 p.p_va =
      BitVec.ofNat 64 (p.p_va + p.p_memsz) := by
    rw [Nat.add_comm, BitVec.ofNat_add]
  have hptr : BitVec.ofNat 64 p.p_va &&& ~~~(511 : Word) = BitVec.ofNat 64 p.lo := by
    apply BitVec.eq_of_toNat_eq
    rw [roundDown_toNat, hva, BitVec.toNat_ofNat, Nat.mod_eq_of_lt (by omega)]
    rfl
  have hptr' : (BitVec.ofNat 64 p.lo).toNat = p.lo := Nat.mod_eq_of_lt (by omega)
  have hend' : (BitVec.ofNat 64 (p.p_va + p.p_filesz)).toNat = p.p_va + p.p_filesz :=
    Nat.mod_eq_of_lt (by omega)
  have hmem' : (BitVec.ofNat 64 (p.p_va + p.p_memsz)).toNat = p.p_va + p.p_memsz :=
    Nat.mod_eq_of_lt (by omega)
  have hsrc : (BitVec.ofNat 32 (p.p_offset / 512 + 1)).toNat = p.p_offset / 512 + 1 :=
    Nat.mod_eq_of_lt (by omega)
  have hcover : p.p_va + p.p_filesz ≤ p.lo + 512 * p.sectors ∧
      (p.sectors ≠ 0 → p.lo + 512 * (p.sectors - 1) < p.p_va + p.p_filesz) := by
    rw [ElfProgram.lo, ElfProgram.sectors]
    omega
  rw [readseg, hend, hmem, hptr,
    readLoop_ok p.sectors (by omega) (by omega) (by omega) (by omega) (by omega) (by omega)
    fun a h₁ h₂ => hp.own a (by omega) (by omega), ok_bind, hsrc]
  exact clearLoop_ok (p.p_memsz - p.p_filesz) (by omega) (by omega)
    fun a h₁ h₂ => hp.own a (by omega) (by omega)

theorem readseg_loaded (himage : HoldsKernel image kernel) (hp : p.Loadable bottom image)
    (mem : ByteMemory) :
    ∃ mem', (∀ fuel, 2 ^ 64 ≤ fuel → readseg bottom fuel image mem (BitVec.ofNat 64 p.p_va)
      (BitVec.ofNat 32 (p.p_offset / 512 + 1))
        (BitVec.ofNat 64 p.p_filesz) (BitVec.ofNat 64 p.p_memsz) = .ok mem') ∧
      p.Loaded kernel mem' ∧ ∀ a : Word, ¬ (p.lo ≤ a.toNat ∧ a.toNat < p.hi) → mem' a = mem a := by
  have hbound := sectors_bound hp.memsz
  have hwrap := hp.noWrap
  have hmemsz := hp.memsz
  have haligned := hp.aligned
  have htop : p.p_va + p.p_memsz ≤ p.hi := by
    rw [ElfProgram.hi]
    omega
  have hlo : p.lo ≤ p.p_va := Nat.mul_div_le _ _
  have hlo' : (BitVec.ofNat 64 p.lo).toNat = p.lo := Nat.mod_eq_of_lt (by omega)
  have hend' : (BitVec.ofNat 64 (p.p_va + p.p_filesz)).toNat = p.p_va + p.p_filesz :=
    Nat.mod_eq_of_lt (by omega)
  have haddr : ∀ i < p.p_memsz, (BitVec.ofNat 64 (p.p_va + i)).toNat = p.p_va + i :=
    fun i hi => Nat.mod_eq_of_lt (by omega)
  have hcover : p.p_va + p.p_filesz ≤ p.lo + 512 * p.sectors := by
    rw [ElfProgram.lo, ElfProgram.sectors]
    omega
  refine ⟨_, fun fuel hfuel => readseg_writes hp mem hfuel, ⟨?_, ?_⟩, ?_⟩
  · intro i hi
    rw [ByteMemory.write_apply (by omega), if_neg (by rw [haddr i (by omega), hend']; omega),
      ByteMemory.write_apply (by omega),
      if_pos (by rw [haddr i (by omega), hlo']; omega), haddr i (by omega), hlo', ← himage.bytes]
    -- the byte is as far into its sector on the disk as in memory
    congr 1
    rw [ElfProgram.lo]
    omega
  · intro i hlow hi
    rw [ByteMemory.write_apply (by omega), if_pos (by rw [haddr i hi, hend']; omega)]
  · intro a ha
    rw [ByteMemory.write_apply (by omega), if_neg (by rw [hend']; omega),
      ByteMemory.write_apply (by omega), if_neg (by rw [hlo']; omega)]

end

end Csc412.Bootloader
