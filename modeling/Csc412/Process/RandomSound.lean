import Csc412.Process.Random
import Csc412.Lib.Congruential

/-!
# The cycle of `rand`

The generator runs through all seeds before it repeats, so in `2 ^ 32` successive
calls each number comes up twice. The low bits have a shorter cycle: those of value
less than `2 ^ k` repeat after `2 ^ k` calls.
-/

namespace Csc412.Process

open Lib

/-- The generator as the next call of `rand` finds it. -/
def Rand.ready (r : Rand) : BitVec 32 := if r.seedSet then r.seed else 819234718#32

/-- The generator after `n` calls. -/
def Rand.after (r : Rand) (n : Nat) : Rand := (fun r => (rand r).2)^[n] r

/-- The number that call `n` returns, from `0` on. -/
def Rand.draw (r : Rand) (n : Nat) : Nat := (rand (r.after n)).1

section
variable (r : Rand)

theorem rand_eq : rand r = ((congruential 32 1664525 1013904223 r.ready &&& randMax).toNat,
    ⟨true, congruential 32 1664525 1013904223 r.ready⟩) := by
  obtain ⟨set, seed⟩ := r
  cases set with
  | true => rfl
  | false => rfl

theorem ready_rand : (rand r).2.ready = congruential 32 1664525 1013904223 r.ready := by
  rw [rand_eq]
  simp [Rand.ready]

theorem ready_after (n : Nat) :
    (r.after n).ready = (congruential 32 1664525 1013904223)^[n] r.ready := by
  unfold Rand.after
  induction n with
  | zero => rfl
  | succ n ih => rw [Function.iterate_succ_apply', ready_rand, ih, Function.iterate_succ_apply']

theorem after_succ (n : Nat) : r.after (n + 1) = (rand (r.after n)).2 := by
  simp [Rand.after, Function.iterate_succ_apply']

theorem randMax_toNat : randMax.toNat = 2 ^ 31 - 1 := by simp [randMax]

theorem and_randMax (x : BitVec 32) : (x &&& randMax).toNat = x.toNat % 2 ^ 31 := by
  rw [BitVec.toNat_and, randMax_toNat, Nat.and_two_pow_sub_one_eq_mod]

/-- Call `n` as the value of the seed it leaves. -/
theorem draw_eq (n : Nat) : r.draw n =
    ((congruential 32 1664525 1013904223)^[n] (congruential 32 1664525 1013904223 r.ready)).toNat %
        2 ^ 31 := by
  rw [Rand.draw, rand_eq, and_randMax, ready_after, ← Function.iterate_succ_apply,
    Function.iterate_succ_apply']

theorem draw_lt (n : Nat) : r.draw n < 2 ^ 31 := by
  rw [draw_eq]
  exact Nat.mod_lt _ (by decide)

theorem draw_mod {k : Nat} (hk : k ≤ 31) (n : Nat) : r.draw n % 2 ^ k =
    ((congruential k 1664525 1013904223)^[n]
        ((congruential 32 1664525 1013904223 r.ready).setWidth k)).toNat := by
  rw [draw_eq, Nat.mod_mod_of_dvd _ (Nat.pow_dvd_pow 2 hk), ← setWidth_iterate (by omega),
    BitVec.toNat_setWidth]

/-- Among `2 ^ 32` words two have given low 31 bits. -/
theorem card_low {v : Nat} (hv : v < 2 ^ 31) :
    ((Finset.range (2 ^ 32)).filter fun x => (BitVec.ofNat 32 x).toNat % 2 ^ 31 = v).card = 2 := by
  have hpair : ((Finset.range (2 ^ 32)).filter fun x => (BitVec.ofNat 32 x).toNat % 2 ^ 31 = v) =
      {v, v + 2 ^ 31} := by
    ext x
    simp only [Finset.mem_filter, Finset.mem_range, Finset.mem_insert, Finset.mem_singleton,
      BitVec.toNat_ofNat]
    omega
  rw [hpair, Finset.card_pair (by omega)]

/-- The sequence of numbers that `rand` returns, from a generator on. -/
structure Cycle : Prop where
  bound : ∀ n, r.draw n ≤ randMax.toNat
  -- Wherever one starts, each number comes up twice in `2 ^ 32` calls.
  twice : ∀ m, ∀ v ≤ randMax.toNat,
    ((Finset.range (2 ^ 32)).filter fun i => r.draw (m + i) = v).card = 2
  -- The `k` low bits repeat after `2 ^ k` calls and not before.
  low : ∀ k ≤ 31, ∀ m n, r.draw (m + n) % 2 ^ k = r.draw m % 2 ^ k ↔ 2 ^ k ∣ n

/-- `rand` on every generator: without a seed, with any seed, after any calls. -/
theorem rand_cycle : Cycle r := by
  refine ⟨fun n => ?_, fun m v hv => ?_, fun k hk m n => ?_⟩
  · have := draw_lt r n
    rw [randMax_toNat]
    omega
  · have hv' : v < 2 ^ 31 := by
      rw [randMax_toNat] at hv
      omega
    have hshift : ∀ i, r.draw (m + i) = ((congruential 32 1664525 1013904223)^[i]
        ((congruential 32 1664525 1013904223)^[m]
            (congruential 32 1664525 1013904223 r.ready))).toNat % 2 ^ 31 := by
      intro i
      rw [draw_eq, Nat.add_comm, Function.iterate_add_apply]
    simp only [hshift]
    rw [count_draws (by decide) (by decide) _ fun x => x.toNat % 2 ^ 31 = v, card_low hv']
  · rw [draw_mod r hk, draw_mod r hk, Nat.add_comm, Function.iterate_add_apply, BitVec.toNat_inj,
      iterate_eq_self (by decide) (by decide)]

end

end Csc412.Process
