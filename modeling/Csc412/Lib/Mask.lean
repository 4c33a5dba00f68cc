import Mathlib.Data.Nat.Bitwise

/-!
# Low bits of a word

The mask of the `k` low bits, and a word without them: the word rounded down to a
multiple of `2 ^ k`.
-/

namespace Lib

theorem getLsbD_mask {w k : Nat} (hk : k ≤ w) (i : Nat) :
    (BitVec.ofNat w (2 ^ k - 1)).getLsbD i = decide (i < k) := by
  rw [BitVec.getLsbD_ofNat, Nat.testBit_two_pow_sub_one]
  by_cases hi : i < k
  · rw [decide_eq_true hi, decide_eq_true (Nat.lt_of_lt_of_le hi hk)]
    rfl
  · rw [decide_eq_false hi, Bool.and_false]

theorem clearLow_toNat {w k : Nat} (hk : k ≤ w) (x : BitVec w) :
    (x &&& ~~~BitVec.ofNat w (2 ^ k - 1)).toNat = x.toNat / 2 ^ k * 2 ^ k := by
  have hshift : x &&& ~~~BitVec.ofNat w (2 ^ k - 1) = (x >>> k) <<< k := by
    apply BitVec.eq_of_getLsbD_eq
    intro i hi
    rw [BitVec.getLsbD_and, BitVec.getLsbD_not, getLsbD_mask hk, BitVec.getLsbD_shiftLeft,
      BitVec.getLsbD_ushiftRight]
    by_cases h : i < k
    · simp [h]
    · simp [h, hi, Nat.add_sub_cancel' (Nat.le_of_not_lt h)]
  have hle : x.toNat / 2 ^ k * 2 ^ k < 2 ^ w := Nat.lt_of_le_of_lt (Nat.div_mul_le_self _ _) x.isLt
  rw [hshift, BitVec.toNat_shiftLeft, BitVec.toNat_ushiftRight, Nat.shiftLeft_eq,
    Nat.shiftRight_eq_div_pow, Nat.mod_eq_of_lt hle]

end Lib
