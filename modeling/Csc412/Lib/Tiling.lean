import Mathlib.Data.List.Pairwise

/-!
# Tilings of an interval

Ranges given by where they start and how long they are, each starting where the one before
it ends. They cover an interval and do not overlap.
-/

namespace Lib

/-- The ranges are not empty and follow each other from `a` to `b`. -/
inductive Tiling : Nat → Nat → List (Nat × Nat) → Prop
  | nil (a : Nat) : Tiling a a []
  | cons {a b n : Nat} {rs : List (Nat × Nat)} : 0 < n → Tiling (a + n) b rs →
    Tiling a b ((a, n) :: rs)

namespace Tiling

variable {a b : Nat} {rs : List (Nat × Nat)}

theorem le (h : Tiling a b rs) : a ≤ b := by
  induction h with
  | nil => exact Nat.le_refl _
  | cons _ _ ih => omega

theorem start_le (h : Tiling a b rs) : ∀ r ∈ rs, a ≤ r.1 := by
  induction h with
  | nil => simp
  | cons _ _ ih =>
    intro r hr
    rcases List.mem_cons.mp hr with rfl | hr
    · exact Nat.le_refl _
    · have := ih r hr
      omega

theorem covers (h : Tiling a b rs) (x : Nat) :
    a ≤ x ∧ x < b ↔ ∃ r ∈ rs, r.1 ≤ x ∧ x < r.1 + r.2 := by
  induction h with
  | nil => simp
  | @cons a b n rs _ hrest ih =>
    have hle := hrest.le
    simp only [List.mem_cons, exists_eq_or_imp, ← ih]
    omega

theorem pairwise (h : Tiling a b rs) : rs.Pairwise fun r s => r.1 + r.2 ≤ s.1 := by
  induction h with
  | nil => exact .nil
  | cons _ hrest ih => exact .cons hrest.start_le ih

theorem eq_nil (h : Tiling a a rs) : rs = [] := by
  cases h with
  | nil => rfl
  | cons hn hrest =>
    have := hrest.le
    omega

end Tiling

end Lib
