import Mathlib.Logic.Function.Basic

/-!
# Sequences of stores

A run that only writes is the list of its stores, and `apply` is what it leaves in memory.
-/

namespace Lib

abbrev Stores (α : Type) := List (Nat × α)

namespace Stores

variable {α : Type}

def apply (m : Nat → α) : Stores α → Nat → α
  | [] => m
  | w :: ws => apply (Function.update m w.1 w.2) ws

theorem apply_append (m : Nat → α) (ws ws' : Stores α) :
    apply m (ws ++ ws') = apply (apply m ws) ws' := by
  induction ws generalizing m with
  | nil => rfl
  | cons w ws ih => exact ih _

/-- Stores at one place after the other. -/
def block (a : Nat) : List α → Stores α
  | [] => []
  | x :: xs => (a, x) :: block (a + 1) xs

theorem block_append (a : Nat) (xs ys : List α) :
    block a (xs ++ ys) = block a xs ++ block (a + xs.length) ys := by
  induction xs generalizing a with
  | nil => rfl
  | cons x xs ih =>
    rw [List.cons_append, block, block, ih, List.length_cons, List.cons_append, Nat.add_assoc,
      Nat.add_comm 1]

theorem mem_block {a : Nat} {xs : List α} {w : Nat × α} (hw : w ∈ block a xs) :
    a ≤ w.1 ∧ w.1 < a + xs.length := by
  induction xs generalizing a with
  | nil => exact absurd hw List.not_mem_nil
  | cons x xs ih =>
    rw [List.length_cons]
    rcases List.mem_cons.mp hw with rfl | hw
    · exact ⟨Nat.le_refl _, by omega⟩
    · have hin := ih hw
      omega

theorem apply_of_notMem (m : Nat → α) {ws : Stores α} {k : Nat} (h : ∀ w ∈ ws, w.1 ≠ k) :
    apply m ws k = m k := by
  induction ws generalizing m with
  | nil => rfl
  | cons w ws ih =>
    rw [apply, ih _ fun v hv => h v (List.mem_cons_of_mem w hv)]
    exact Function.update_of_ne (fun hk => h w List.mem_cons_self hk.symm) _ _

theorem apply_block (m : Nat → α) (a : Nat) {xs : List α} {i : Nat} (hi : i < xs.length) :
    apply m (block a xs) (a + i) = xs[i] := by
  induction xs generalizing m a i with
  | nil => exact absurd hi (Nat.not_lt_zero i)
  | cons x xs ih =>
    rw [block, apply]
    cases i with
    | zero =>
      rw [apply_of_notMem, Nat.add_zero]
      · exact Function.update_self _ _ _
      · intro w hw
        have hin := mem_block hw
        omega
    | succ i =>
      rw [← Nat.add_assoc, Nat.add_right_comm]
      exact ih _ (a + 1) (Nat.lt_of_succ_lt_succ hi)

theorem map_apply_block (m : Nat → α) (a : Nat) (xs : List α) :
    (List.range xs.length).map (fun i => apply m (block a xs) (a + i)) = xs := by
  apply List.ext_getElem
  · rw [List.length_map, List.length_range]
  · intro i hi hi'
    rw [List.getElem_map, List.getElem_range]
    exact apply_block m a hi'

end Stores

end Lib
