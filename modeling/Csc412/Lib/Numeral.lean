import Mathlib.Data.Nat.Digits.Lemmas

/-!
# Numerals

The digits of a number from the most significant one on. Zero has one digit, and no other
number has a zero in front.
-/

namespace Lib.Numeral

def numeral (b n : Nat) : List Nat := if n = 0 then [0] else (Nat.digits b n).reverse

def value (b : Nat) (ds : List Nat) : Nat := ds.foldl (fun v d => b * v + d) 0

theorem value_zeros (b z : Nat) (ds : List Nat) :
    value b (List.replicate z 0 ++ ds) = value b ds := by
  induction z with
  | zero => rfl
  | succ z ih =>
    rw [List.replicate_succ, List.cons_append, value, List.foldl_cons, Nat.mul_zero]
    exact ih

theorem foldl_value (b v : Nat) (ds : List Nat) :
    ds.foldl (fun v d => b * v + d) v = v * b ^ ds.length + value b ds := by
  induction ds generalizing v with
  | nil => simp [value]
  | cons d ds ih =>
    rw [value, List.foldl_cons, List.foldl_cons, ih, ih (b * 0 + d), List.length_cons, Nat.pow_succ]
    ring

theorem value_cons (b d : Nat) (ds : List Nat) :
    value b (d :: ds) = d * b ^ ds.length + value b ds := by
  rw [value, List.foldl_cons, foldl_value, Nat.mul_zero, Nat.zero_add]

theorem value_lt {b : Nat} {ds : List Nat} (h : ∀ d ∈ ds, d < b) : value b ds < b ^ ds.length := by
  induction ds with
  | nil => simp [value]
  | cons d ds ih =>
    obtain ⟨hd, hds⟩ := List.forall_mem_cons.mp h
    have hmul : (d + 1) * b ^ ds.length ≤ b * b ^ ds.length := Nat.mul_le_mul_right _ hd
    rw [value_cons, List.length_cons, Nat.pow_succ, Nat.mul_comm (b ^ ds.length)]
    have := ih hds
    rw [Nat.add_mul, Nat.one_mul] at hmul
    omega

section
variable {b : Nat} (hb : 2 ≤ b) (n : Nat)
include hb

theorem numeral_step :
    numeral b n = if n / b ≠ 0 then numeral b (n / b) ++ [n % b] else [n % b] := by
  by_cases hn : n = 0
  · subst hn
    rw [Nat.zero_div, if_neg (not_not.mpr rfl), Nat.zero_mod]
    rfl
  · have hcons : Nat.digits b n = n % b :: Nat.digits b (n / b) :=
      Nat.digits_def' hb (Nat.pos_of_ne_zero hn)
    rw [numeral, if_neg hn, hcons, List.reverse_cons]
    by_cases hdiv : n / b = 0
    · rw [if_neg (not_not.mpr hdiv), hdiv, Nat.digits_zero]
      rfl
    · rw [if_pos hdiv, numeral, if_neg hdiv]

theorem numeral_lt {d : Nat} (hd : d ∈ numeral b n) : d < b := by
  rw [numeral] at hd
  split at hd
  · rw [List.mem_singleton] at hd
    omega
  · exact Nat.digits_lt_base (by omega) (List.mem_reverse.mp hd)

theorem value_numeral : value b (numeral b n) = n := by
  induction n using Nat.strongRecOn with
  | _ n ih =>
    rw [numeral_step hb]
    by_cases hdiv : n / b = 0
    · rw [if_neg (not_not.mpr hdiv), Nat.mod_eq_of_lt ((Nat.div_eq_zero_iff_lt (by omega)).mp hdiv)]
      simp [value]
    · have hpos : n ≠ 0 := by
        intro h0
        rw [h0, Nat.zero_div] at hdiv
        exact hdiv rfl
      have hvalue : value b (numeral b (n / b) ++ [n % b]) = b * value b (numeral b (n / b)) +
          n % b := by
        rw [value, List.foldl_append]
        rfl
      rw [if_pos hdiv, hvalue, ih (n / b) (Nat.div_lt_self (Nat.pos_of_ne_zero hpos) (by omega))]
      exact Nat.div_add_mod n b

theorem numeral_length_le {k : Nat} (hk : 0 < k) (h : n < b ^ k) : (numeral b n).length ≤ k := by
  rw [numeral]
  split
  · exact hk
  · rw [List.length_reverse]
    exact (Nat.digits_length_le_iff (by omega) n).mpr h

omit hb in
theorem numeral_ne_nil : numeral b n ≠ [] := by
  rw [numeral]
  split
  · exact List.cons_ne_nil _ _
  · rename_i hn
    rw [ne_eq, List.reverse_eq_nil_iff]
    exact Nat.digits_ne_nil_iff_ne_zero.mpr hn

omit hb in
/-- No zero stands in front of another digit. -/
theorem numeral_head (h : (numeral b n).head? = some 0) : n = 0 ∧ numeral b n = [0] := by
  by_cases hn : n = 0
  · exact ⟨hn, by rw [numeral, if_pos hn]⟩
  · rw [numeral, if_neg hn, List.head?_reverse] at h
    have hne : Nat.digits b n ≠ [] := Nat.digits_ne_nil_iff_ne_zero.mpr hn
    have hlast := Nat.getLast_digit_ne_zero b hn
    rw [List.getLast?_eq_some_getLast hne, Option.some.injEq] at h
    exact absurd h hlast

end

end Lib.Numeral
