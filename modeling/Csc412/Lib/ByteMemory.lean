import Mathlib.Data.BitVec
import Mathlib.Logic.Function.Basic

/-!
# Memory of bytes

Addresses are words of 64 bits and wrap around. A block that does not wrap is written
where its numbers say, so writes one after another are one write.
-/

namespace Lib

abbrev ByteMemory := BitVec 64 → UInt8

/-- The number of `n` bytes, the lowest first. -/
def le (byte : Nat → UInt8) : Nat → Nat
  | 0 => 0
  | n + 1 => le byte n + (byte n).toNat * 256 ^ n

theorem le_congr {f g : Nat → UInt8} {n : Nat} (h : ∀ i < n, f i = g i) : le f n = le g n := by
  induction n with
  | zero => rfl
  | succ n ih => rw [le, le, ih fun i hi => h i (Nat.lt_succ_of_lt hi), h n (Nat.lt_succ_self n)]

namespace ByteMemory

def write (m : ByteMemory) (dst : BitVec 64) (n : Nat) (byte : Nat → UInt8) : ByteMemory := fun a =>
  if (a - dst).toNat < n then byte (a - dst).toNat else m a

variable {m : ByteMemory} {dst a : BitVec 64} {n k : Nat} {byte byte' : Nat → UInt8}

theorem write_congr (h : ∀ i < n, byte i = byte' i) : m.write dst n byte = m.write dst n byte' := by
  funext a
  rw [write, write]
  split
  · exact h _ ‹_›
  · rfl

theorem write_ofNat (hn : n ≤ 2 ^ 64) {i : Nat} (hi : i < n) :
    m.write dst n byte (dst + BitVec.ofNat 64 i) = byte i := by
  have hsub : (dst + BitVec.ofNat 64 i - dst).toNat = i := by
    rw [BitVec.add_comm, BitVec.add_sub_cancel, BitVec.toNat_ofNat]
    exact Nat.mod_eq_of_lt (Nat.lt_of_lt_of_le hi hn)
  rw [write, hsub, if_pos hi]

theorem update_write (byte : Nat → UInt8) (hn : n < 2 ^ 64) :
    write (Function.update m dst (byte 0)) (dst + 1) n (fun i => byte (i + 1)) =
        m.write dst (n + 1) byte := by
  funext a
  rw [write, write]
  by_cases ha : a = dst
  · subst ha
    rw [if_neg (by bv_omega), if_pos (by bv_omega), Function.update_self, BitVec.sub_self]
    rfl
  · have hpos : (a - dst).toNat = (a - (dst + 1)).toNat + 1 := by bv_omega
    rw [hpos]
    by_cases hin : (a - (dst + 1)).toNat < n
    · rw [if_pos hin, if_pos (by omega)]
    · rw [if_neg hin, if_neg (by omega), Function.update_of_ne ha]

theorem update_last (byte : Nat → UInt8) (hn : n < 2 ^ 64) :
    write (Function.update m (dst + BitVec.ofNat 64 n) (byte n)) dst n byte =
        m.write dst (n + 1) byte := by
  funext a
  rw [write, write]
  by_cases hin : (a - dst).toNat < n
  · rw [if_pos hin, if_pos (by omega)]
  · rw [if_neg hin]
    by_cases ha : a = dst + BitVec.ofNat 64 n
    · have hlast : (a - dst).toNat = n := by
        rw [ha]
        bv_omega
      rw [hlast, if_pos (Nat.lt_succ_self n), ha, Function.update_self]
    · have hne : (a - dst).toNat ≠ n := by
        intro hsub
        apply ha
        bv_omega
      rw [if_neg (by omega), Function.update_of_ne ha]

theorem write_apply (h : dst.toNat + n ≤ 2 ^ 64) :
    m.write dst n byte a = if dst.toNat ≤ a.toNat ∧ a.toNat < dst.toNat + n
        then byte (a.toNat - dst.toNat) else m a := by
  have ha := a.isLt
  by_cases hin : dst.toNat ≤ a.toNat ∧ a.toNat < dst.toNat + n
  · have hsub : (a - dst).toNat = a.toNat - dst.toNat := by
      rw [BitVec.toNat_sub]
      omega
    rw [write, hsub, if_pos (by omega), if_pos hin]
  · have hsub : n ≤ (a - dst).toNat := by
      rw [BitVec.toNat_sub]
      omega
    rw [write, if_neg (Nat.not_lt.mpr hsub), if_neg hin]

theorem write_write (h : dst.toNat + k + n < 2 ^ 64) :
    (m.write dst k byte).write (dst + BitVec.ofNat 64 k) n byte' = m.write dst
    (k + n) fun i => if i < k then byte i else byte' (i - k) := by
  have hdst : (dst + BitVec.ofNat 64 k).toNat = dst.toNat + k := by
    rw [BitVec.toNat_add, BitVec.toNat_ofNat]
    omega
  funext a
  rw [write_apply (by omega), write_apply (by omega), write_apply (by omega), hdst]
  by_cases hlow : dst.toNat ≤ a.toNat ∧ a.toNat < dst.toNat + k
  · rw [if_neg (by omega), if_pos hlow, if_pos (by omega), if_pos (by omega)]
  · by_cases hhigh : dst.toNat + k ≤ a.toNat ∧ a.toNat < dst.toNat + k + n
    · rw [if_pos hhigh, if_pos (by omega), if_neg (by omega), Nat.sub_sub]
    · rw [if_neg hhigh, if_neg hlow, if_neg (by omega)]

end ByteMemory

end Lib
