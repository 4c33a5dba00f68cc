import Csc412.Memory.Copy

/-!
# Copies are exact

Copying upwards never reads a byte that it has written unless the destination starts inside
the source, and copying downwards only if the source starts inside the destination. The
distance between the two, modulo `2 ^ 64`, says which. `memmove` picks a direction that is
safe, so it is one write of the old bytes: `memmove_exact`.
-/

namespace Csc412.Memory
open Lib

/-- `q` is not one of the first `n` bytes from `p` on, unless it is `p`. -/
def Clear (p q : Word) (n : Nat) : Prop := q = p ∨ n ≤ (q - p).toNat

section
variable {m : ByteMemory} {d s v : Word} {n : Nat}

/-- Writing a byte of the destination leaves what is still to be read. -/
theorem copyUp_write (h : Clear s d n) (hn : n ≤ 2 ^ 64) :
    copyUp n m d s = m.write d n fun i => m (s + BitVec.ofNat 64 i) := by
  induction n generalizing m d s with
  | zero => rfl
  | succ n ih =>
    have hnext : Clear (s + 1) (d + 1) n := by
      obtain rfl | hfar := h
      · exact .inl rfl
      · right
        rw [show d + 1 - (s + 1) = d - s by bv_omega]
        exact Nat.le_of_succ_le hfar
    have hunread : ∀ i < n, Function.update m d (m s) (s + 1 + BitVec.ofNat 64 i) =
        m (s + BitVec.ofNat 64 (i + 1)) := by
      intro i hi
      have haddr : s + 1 + BitVec.ofNat 64 i = s + BitVec.ofNat 64 (i + 1) := by bv_omega
      have hne : s + BitVec.ofNat 64 (i + 1) ≠ d := by
        obtain rfl | hfar := h <;> bv_omega
      rw [haddr, Function.update_of_ne hne]
    have hfirst : m s = m (s + BitVec.ofNat 64 0) := by rw [BitVec.add_zero]
    rw [copyUp, ih hnext (Nat.le_of_succ_le hn), ByteMemory.write_congr hunread, hfirst]
    exact ByteMemory.update_write (fun i => m (s + BitVec.ofNat 64 i)) hn

theorem copyDown_write (h : Clear d s n) (hn : n ≤ 2 ^ 64) :
    copyDown n m (d + BitVec.ofNat 64 n) (s + BitVec.ofNat 64 n) = m.write d n
        fun i => m (s + BitVec.ofNat 64 i) := by
  induction n generalizing m with
  | zero => rfl
  | succ n ih =>
    have hend : ∀ p : Word, p + BitVec.ofNat 64 (n + 1) - 1 = p + BitVec.ofNat 64 n := by
      intro p
      bv_omega
    have hnext : Clear d s n := h.imp_right Nat.le_of_succ_le
    have hunread : ∀ i < n, Function.update m (d + BitVec.ofNat 64 n) (m (s + BitVec.ofNat 64 n))
      (s + BitVec.ofNat 64 i) =
        m (s + BitVec.ofNat 64 i) := by
      intro i hi
      have hne : s + BitVec.ofNat 64 i ≠ d + BitVec.ofNat 64 n := by
        obtain rfl | hfar := h <;> bv_omega
      exact Function.update_of_ne hne _ _
    rw [copyDown, hend, hend, ih hnext (Nat.le_of_succ_le hn), ByteMemory.write_congr hunread]
    exact ByteMemory.update_last (fun i => m (s + BitVec.ofNat 64 i)) hn

theorem fill_write (c : UInt8) (hn : n ≤ 2 ^ 64) : fill c n m v = m.write v n fun _ => c := by
  induction n generalizing m v with
  | zero => rfl
  | succ n ih =>
    rw [fill, ih (Nat.le_of_succ_le hn)]
    exact ByteMemory.update_write (fun _ => c) hn

end

section
variable (m : ByteMemory) (dst src n : Word)

theorem memset_exact (c : BitVec 32) :
    memset m dst c n = (m.write dst n.toNat fun _ => UInt8.ofBitVec (c.setWidth 8), dst) := by
  rw [memset, fill_write _ (Nat.le_of_lt n.isLt)]

theorem memcpy_exact (h : Clear src dst n.toNat) :
    memcpy m dst src n = (m.write dst n.toNat fun i => m (src + BitVec.ofNat 64 i), dst) := by
  rw [memcpy, copyUp_write h (Nat.le_of_lt n.isLt)]

variable (hdst : dst.toNat + n.toNat ≤ 2 ^ 64) (hsrc : src.toNat + n.toNat ≤ 2 ^ 64)
include hdst hsrc

/-- Either direction is the same write. -/
theorem memmove_write :
    memmove m dst src n = (m.write dst n.toNat fun i => m (src + BitVec.ofNat 64 i), dst) := by
  have hn := Nat.le_of_lt n.isLt
  rw [memmove]
  split
  · rename_i hback
    have hclear : Clear dst src n.toNat := .inr (by bv_omega)
    have hdown := copyDown_write (m := m) hclear hn
    rw [BitVec.ofNat_toNat, BitVec.setWidth_eq] at hdown
    rw [hdown]
  · rename_i hup
    have hclear : Clear src dst n.toNat := by
      by_cases heq : dst = src
      · exact .inl heq
      · right
        bv_omega
    rw [copyUp_write hclear hn]

theorem memmove_exact : (memmove m dst src n).2 = dst ∧
    (∀ i < n.toNat, (memmove m dst src n).1 (dst + BitVec.ofNat 64 i) =
      m (src + BitVec.ofNat 64 i)) ∧
    ∀ a : Word, ¬ (dst.toNat ≤ a.toNat ∧ a.toNat < dst.toNat + n.toNat) →
    (memmove m dst src n).1 a = m a := by
  rw [memmove_write m dst src n hdst hsrc]
  refine ⟨rfl, ?_, ?_⟩
  · intro i hi
    simp only [ByteMemory.write_ofNat (Nat.le_of_lt n.isLt) hi]
  · intro a ha
    simp only [ByteMemory.write_apply hdst, if_neg ha]

end

def addresses : ByteMemory := fun a => UInt8.ofNat a.toNat

theorem memmove_exact_overlap : (memmove addresses 1 0 2).2 = 1 ∧
    (∀ i < (2 : Word).toNat, (memmove addresses 1 0 2).1 (1 + BitVec.ofNat 64 i) =
      addresses (0 + BitVec.ofNat 64 i)) ∧
    ∀ a : Word, ¬ ((1 : Word).toNat ≤ a.toNat ∧ a.toNat < (1 : Word).toNat + (2 : Word).toNat) →
    (memmove addresses 1 0 2).1 a = addresses a :=
  memmove_exact addresses 1 0 2 (by decide) (by decide)

end Csc412.Memory
