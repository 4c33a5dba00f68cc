import Mathlib.Data.List.Induction
import Mathlib.Tactic.Common

/-!
# Cyclic search

Positions `0 .. n - 1` stand on a ring and `(i + 1) % n` follows `i`. A search
goes round from a start and stops at the first position that satisfies a test.
`ringDist n i j` counts the steps from `i` forward to `j`; a search that misses a
satisfying position `q` still comes closer to it (`search_closer`), which is
what makes a round-robin choice fair.
-/

namespace Lib

def ringDist (n i j : Nat) : Nat := if i ≤ j then j - i else j + n - i

/-- The first position from `i` on that satisfies `P`, among `fuel` positions. -/
def search (n : Nat) (P : Nat → Bool) : Nat → Nat → Option Nat
  | 0, _ => none
  | fuel + 1, i => if P i then some i else search n P fuel ((i + 1) % n)

section
variable {n i j p q : Nat}

theorem succ_mod (hi : i < n) : (i + 1) % n = if i + 1 = n then 0 else i + 1 := by
  split
  · rename_i h; rw [h, Nat.mod_self]
  · exact Nat.mod_eq_of_lt (by omega)

theorem succ_mod_lt (hi : i < n) : (i + 1) % n < n := Nat.mod_lt _ (by omega)

theorem ringDist_self (n i : Nat) : ringDist n i i = 0 := by simp [ringDist]

theorem ringDist_lt (hi : i < n) (hj : j < n) : ringDist n i j < n := by
  unfold ringDist; split <;> omega

theorem ringDist_eq_zero (hi : i < n) (h : ringDist n i j = 0) : i = j := by
  unfold ringDist at h; split at h <;> omega

theorem ringDist_inj (hp : p < n) (hi : i < n) (hj : j < n) (h : ringDist n p i = ringDist n p j) :
    i = j := by
  unfold ringDist at h; split at h <;> split at h <;> omega

theorem ringDist_succ (hi : i < n) (hj : j < n) (h : i ≠ j) :
    ringDist n ((i + 1) % n) j + 1 = ringDist n i j := by
  rw [succ_mod hi]; unfold ringDist
  split <;> split <;> split <;> omega

theorem ringDist_next (hp : p < n) (hi : i < n) (h : (i + 1) % n ≠ p) :
    ringDist n p ((i + 1) % n) = ringDist n p i + 1 := by
  rw [succ_mod hi] at h ⊢; unfold ringDist
  split at h <;> split_ifs <;> omega

theorem ringDist_last (hi : i < n) (h : (i + 1) % n = p) : ringDist n p i + 1 = n := by
  rw [succ_mod hi] at h; unfold ringDist
  split at h <;> split_ifs <;> omega

/-- Going from `i` to `q` through a nearer `p` costs nothing extra. -/
theorem ringDist_add (hi : i < n) (hp : p < n) (hq : q < n) (h : ringDist n i p ≤ ringDist n i q) :
    ringDist n i p + ringDist n p q = ringDist n i q := by
  unfold ringDist at h ⊢
  split_ifs at h ⊢ <;> omega

end

section
variable {n : Nat} {P : Nat → Bool}

theorem search_some : ∀ {fuel i p : Nat}, i < n → search n P fuel i = some p →
    p < n ∧ P p = true ∧ ∀ j < n, ringDist n i j < ringDist n i p → P j = false
  | 0, _, _, _, h => by simp [search] at h
  | fuel + 1, i, p, hi, h => by
    unfold search at h
    split at h
    · rename_i hP
      cases h
      exact ⟨hi, hP, fun j _ hd => by rw [ringDist_self] at hd; omega⟩
    · rename_i hP
      obtain ⟨hp, hPp, hbefore⟩ := search_some (succ_mod_lt hi) h
      refine ⟨hp, hPp, fun j hj hd => ?_⟩
      by_cases hij : i = j
      · subst hij; simpa using hP
      · have hip : i ≠ p := by
          rintro rfl
          rw [ringDist_self] at hd
          omega
        have h₁ := ringDist_succ hi hj hij
        have h₂ := ringDist_succ hi hp hip
        exact hbefore j hj (by omega)

theorem search_none : ∀ {fuel i : Nat}, i < n → search n P fuel i = none →
    ∀ j < n, ringDist n i j < fuel → P j = false
  | 0, _, _, _, _, _, hd => by omega
  | fuel + 1, i, hi, h, j, hj, hd => by
    unfold search at h
    split at h
    · cases h
    · rename_i hP
      by_cases hij : i = j
      · subst hij; simpa using hP
      · have := ringDist_succ hi hj hij
        exact search_none (succ_mod_lt hi) h j hj (by omega)

theorem search_round_none {i : Nat} (hi : i < n) (h : search n P n i = none) :
    ∀ j < n, P j = false :=
  fun j hj => search_none hi h j hj (ringDist_lt hi hj)

theorem search_closer {fuel i p q : Nat} (hi : i < n) (hq : q < n) (hPq : P q = true)
    (h : search n P fuel i = some p) : ringDist n i p + ringDist n p q = ringDist n i q := by
  obtain ⟨hp, -, hbefore⟩ := search_some hi h
  refine ringDist_add hi hp hq (Nat.le_of_not_lt fun hlt => ?_)
  have := hbefore q hq hlt
  simp [hPq] at this

/-- After a stop at `p ≠ q` the next search starts closer to `q` than this one. -/
theorem search_succ_lt {fuel i p q : Nat} (hi : i < n) (hq : q < n) (hPq : P q = true) (hpq : p ≠ q)
    (h : search n P fuel i = some p) :
    ringDist n ((p + 1) % n) q < ringDist n p q ∧ ringDist n p q ≤ ringDist n i q := by
  have h₁ := search_closer hi hq hPq h
  have h₂ := ringDist_succ (search_some hi h).1 hq hpq
  omega

end

end Lib
