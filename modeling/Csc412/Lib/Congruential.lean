import Mathlib.Algebra.Ring.GeomSum
import Mathlib.Data.BitVec
import Mathlib.NumberTheory.Multiplicity
import Mathlib.Tactic.Ring
import Mathlib.Tactic.LinearCombination

/-!
# Linear congruential generators

`x ↦ x * a + c` on words of `w` bits. When `a % 4 = 1` and `c` is odd every word
comes up exactly once in any `2 ^ w` successive steps (`count_draws`): the powers of
`a` add up to a multiple of `2 ^ w` only after a multiple of `2 ^ w` of them.
-/

namespace Lib

variable {w : Nat} {a c : Nat}

def congruential (w a c : Nat) (x : BitVec w) : BitVec w := x * BitVec.ofNat w a + BitVec.ofNat w c

/-- `1 + a + a ^ 2 + …`, `n` powers. -/
def powers (a : Nat) : Nat → Nat
  | 0 => 0
  | n + 1 => powers a n * a + 1

theorem powers_mul (a n : Nat) : (powers a n : Int) * (a - 1) = a ^ n - 1 := by
  induction n with
  | zero => simp [powers]
  | succ n ih =>
    simp only [powers, Nat.cast_add, Nat.cast_mul, Nat.cast_one]
    linear_combination (a : Int) * ih

theorem powers_one (n : Nat) : powers 1 n = n := by
  induction n with
  | zero => rfl
  | succ n ih => simp [powers, ih]

theorem iterate_congruential (x : BitVec w) (n : Nat) : ((congruential w a c)^[n] x) =
    x * BitVec.ofNat w (a ^ n) + BitVec.ofNat w c * BitVec.ofNat w (powers a n) := by
  induction n with
  | zero => simp [powers]
  | succ n ih =>
    rw [Function.iterate_succ_apply', ih]
    have hone : BitVec.ofNat w 1 = 1 := rfl
    simp only [congruential, powers, pow_succ, BitVec.ofNat_add, BitVec.ofNat_mul, hone]
    ring

/-- The low bits are a generator of their own. -/
theorem setWidth_iterate {k : Nat} (hk : k ≤ w) (x : BitVec w) (n : Nat) :
    ((congruential w a c)^[n] x).setWidth k = (congruential k a c)^[n] (x.setWidth k) := by
  induction n with
  | zero => rfl
  | succ n ih =>
    rw [Function.iterate_succ_apply', Function.iterate_succ_apply', ← ih]
    simp [congruential, BitVec.setWidth_add, BitVec.setWidth_mul, BitVec.setWidth_ofNat_of_le, hk]

section
variable (ha : a % 4 = 1)
include ha

/-- The sum of `n` powers has as many factors two as `n`. -/
theorem two_pow_dvd_powers (n : Nat) : 2 ^ w ∣ powers a n ↔ 2 ^ w ∣ n := by
  by_cases h1 : a = 1
  · rw [h1, powers_one]
  have hodd : ¬ (2 : Int) ∣ a := by omega
  have hne : (a : Int) - 1 ≠ 0 := by omega
  have h := Int.two_pow_sub_pow' (x := a) (y := 1) n (by omega) hodd
  rw [one_pow, ← powers_mul, emultiplicity_mul Int.prime_two, add_comm] at h
  have hfin : emultiplicity (2 : Int) (a - 1) ≠ ⊤ :=
    finiteMultiplicity_iff_emultiplicity_ne_top.mp (Int.finiteMultiplicity_iff.mpr ⟨by decide, hne⟩)
  have hmul : emultiplicity (2 : Int) (powers a n) = emultiplicity (2 : Int) n :=
    ENat.add_right_injective_of_ne_top hfin h
  rw [← Int.natCast_dvd_natCast, ← Int.natCast_dvd_natCast (n := n), Nat.cast_pow, Nat.cast_ofNat,
    pow_dvd_iff_le_emultiplicity, pow_dvd_iff_le_emultiplicity, hmul]

variable (hc : c % 2 = 1)
include hc

theorem iterate_eq_self (x : BitVec w) (n : Nat) : (congruential w a c)^[n] x = x ↔ 2 ^ w ∣ n := by
  have hx : x = BitVec.ofNat w x.toNat := by simp
  have hmod : (congruential w a c)^[n] x = x ↔
      x.toNat ≡ x.toNat * a ^ n + c * powers a n [MOD 2 ^ w] := by
    rw [iterate_congruential]
    nth_rewrite 1 [hx]
    rw [← BitVec.ofNat_mul, ← BitVec.ofNat_mul, ← BitVec.ofNat_add, ← BitVec.toNat_inj,
      BitVec.toNat_ofNat]
    constructor
    · intro h
      exact (Nat.mod_eq_of_lt x.isLt).trans h.symm
    · intro h
      exact Eq.trans (Eq.symm h) (Nat.mod_eq_of_lt x.isLt)
  -- what is added in `n` steps is the sum of the powers times an odd number
  have hadd : ((x.toNat * a ^ n + c * powers a n : Nat) : Int) - x.toNat =
      powers a n * ((a - 1) * x.toNat + c) := by
    push_cast
    linear_combination -(x.toNat : Int) * powers_mul a n
  have hodd : ¬ (2 : Int) ∣ (a - 1) * x.toNat + c := by
    have heven : ((a : Int) - 1) * x.toNat % 2 = 0 := by
      rw [Int.mul_emod, show ((a : Int) - 1) % 2 = 0 by omega]
      simp
    omega
  rw [hmod, Nat.modEq_iff_dvd, hadd, ← two_pow_dvd_powers ha, ← Int.natCast_dvd_natCast]
  push_cast
  constructor
  · exact Int.prime_two.pow_dvd_of_dvd_mul_right w hodd
  · exact fun h => Dvd.dvd.mul_right h _

theorem iterate_inj (x : BitVec w) {m n : Nat} (hm : m < 2 ^ w) (hn : n < 2 ^ w)
    (h : (congruential w a c)^[m] x = (congruential w a c)^[n] x) : m = n := by
  wlog hle : m ≤ n generalizing m n
  · exact (this hn hm h.symm (Nat.le_of_not_le hle)).symm
  have hself : (congruential w a c)^[n - m] ((congruential w a c)^[m] x) =
      (congruential w a c)^[m] x := by
    rw [← Function.iterate_add_apply, Nat.sub_add_cancel hle, h]
  have hzero := Nat.eq_zero_of_dvd_of_lt ((iterate_eq_self ha hc _ _).mp hself) (by omega)
  omega

theorem draws_bijective (x : BitVec w) :
    Function.Bijective fun i : Fin (2 ^ w) => (congruential w a c)^[i] x := by
  have hinj : Function.Injective fun i : Fin (2 ^ w) => ((congruential w a c)^[i] x).toFin := by
    intro i j h
    exact Fin.ext (iterate_inj ha hc x i.isLt j.isLt (BitVec.toFin_injective h))
  constructor
  · intro i j h
    exact hinj (congrArg BitVec.toFin h)
  · intro y
    obtain ⟨i, hi⟩ := (Finite.injective_iff_surjective.mp hinj) y.toFin
    exact ⟨i, BitVec.toFin_injective hi⟩

/-- Any `2 ^ w` successive draws come up with every word once. -/
theorem count_draws (x : BitVec w) (P : BitVec w → Prop) [DecidablePred P] :
    ((Finset.range (2 ^ w)).filter fun i => P ((congruential w a c)^[i] x)).card =
      ((Finset.range (2 ^ w)).filter fun v => P (BitVec.ofNat w v)).card := by
  apply Finset.card_nbij fun i => ((congruential w a c)^[i] x).toNat
  · intro i hi
    simp at hi ⊢
    exact ⟨BitVec.isLt _, hi.2⟩
  · intro i hi j hj h
    simp at hi hj
    exact iterate_inj ha hc x hi.1 hj.1 (BitVec.toNat_injective h)
  · intro v hv
    simp at hv ⊢
    obtain ⟨i, hi⟩ := (draws_bijective ha hc x).surjective (BitVec.ofNat w v)
    simp only at hi
    exact ⟨i, ⟨i.isLt, by rw [hi]; exact hv.2⟩,
      by rw [hi, BitVec.toNat_ofNat, Nat.mod_eq_of_lt hv.1]⟩

end

end Lib
