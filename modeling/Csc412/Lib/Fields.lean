import Mathlib.Data.BitVec

/-!
# Fields of a word

A word is put together of fields, each moved to its place. A field is read back from the
word when no other one reaches into its place, and one that is moved too far is lost.
-/

namespace Lib

/-- `v` from bit `k` on. -/
def field (w k : Nat) {n : Nat} (v : BitVec n) : BitVec w := v.setWidth w <<< k

variable {w k n j m : Nat} {v : BitVec n}

theorem getLsbD_field (i : Nat) :
    (field w k v).getLsbD i = (decide (i < w) && decide (k ≤ i) && v.getLsbD (i - k)) := by
  rw [field, BitVec.getLsbD_shiftLeft, BitVec.getLsbD_setWidth]
  by_cases hi : i < w
  · have hsub : i - k < w := Nat.lt_of_le_of_lt (Nat.sub_le _ _) hi
    by_cases hk : k ≤ i
    · simp [hi, hk, hsub]
    · simp [hi, hk]
  · simp [hi]

theorem extract_field (h : k + n ≤ w) : (field w k v).extractLsb' k n = v := by
  apply BitVec.eq_of_getLsbD_eq
  intro i hi
  rw [BitVec.getLsbD_extractLsb', getLsbD_field, Nat.add_sub_cancel_left]
  simp [hi, show k + i < w by omega]

theorem extract_field_disjoint (h : j + m ≤ k ∨ k + n ≤ j) :
    (field w k v).extractLsb' j m = 0#m := by
  apply BitVec.eq_of_getLsbD_eq
  intro i hi
  rw [BitVec.getLsbD_extractLsb', getLsbD_field, BitVec.getLsbD_zero]
  obtain hlow | hhigh := h
  · simp [show ¬ k ≤ j + i by omega]
  · rw [BitVec.getLsbD_of_ge v _ (by omega), Bool.and_false, Bool.and_false]

theorem field_shiftLeft : field w k v <<< j = field w (k + j) v := (BitVec.shiftLeft_add _ _ _).symm

theorem field_out (h : w ≤ k) : field w k v = 0#w := BitVec.shiftLeft_eq_zero h

/-- Bits that a mask picks are a field. -/
theorem mask_field (x : BitVec w) :
    x &&& field w k (BitVec.allOnes n) = field w k (x.extractLsb' k n) := by
  apply BitVec.eq_of_getLsbD_eq
  intro i hi
  rw [BitVec.getLsbD_and, getLsbD_field, getLsbD_field, BitVec.getLsbD_allOnes,
    BitVec.getLsbD_extractLsb']
  by_cases hk : k ≤ i
  · rw [Nat.add_sub_cancel' hk]
    simp only [hi, hk, decide_true, Bool.true_and, Bool.and_comm]
  · simp [hk]

end Lib
