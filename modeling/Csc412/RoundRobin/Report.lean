import Mathlib.Algebra.Group.Int.Defs
import Mathlib.Algebra.Group.Nat.Defs
import Csc412.Lib.Run
import Csc412.RoundRobin.Threads

/-!
# The scheduler's `int` arithmetic

The additions and subtractions of `scheduling_rr/main.c` as `int` computes them: a
result in range is exact, and nothing is said about any other. The clock's
addition is the `advance` of the threads; the report loop is here.
-/

namespace Csc412.RoundRobin

open Lib

def intMin : Int := -2 ^ 31

def intMax : Int := 2 ^ 31 - 1

def IsInt (x : Int) : Prop := intMin ≤ x ∧ x ≤ intMax

/-- What a signed computation with result `x` leaves in its `int`. -/
structure IntArith where
  value : Int → Int
  exact : ∀ x, IsInt x → value x = x

/-- Two's complement. -/
def IntArith.wrapping : IntArith where
  value x := x.bmod (2 ^ 32)
  exact x hx := by
    have h₁ : -2 ^ 31 ≤ x := hx.1
    have h₂ : x ≤ 2 ^ 31 - 1 := hx.2
    exact Int.bmod_eq_of_le (by omega) (by omega)

def IntArith.advance (m : IntArith) (now consumed : Int) : Int := m.value (now + consumed)

/-! ## The report loop -/

structure Totals where
  wt : Int
  tat : Int

/-- The results of `finish[p] - in.at[p]`, `tat - in.bt[p]`, `total_wt + wt` and
`total_tat + tat`, and the totals they leave. -/
def reportPass (m : IntArith) (inp : Input) (finish : Nat → Int) (total : Totals) (p : Nat) :
    List Int × Totals :=
  let turnaround := finish p - inp.arr p
  let tat := m.value turnaround
  let waiting := tat - inp.bt p
  let wt := if m.value waiting < 0 then 0 else m.value waiting
  ([turnaround, waiting, total.wt + wt, total.tat + tat],
    ⟨m.value (total.wt + wt), m.value (total.tat + tat)⟩)

/-- The totals before pass `p`. -/
def reportTotals (m : IntArith) (inp : Input) (finish : Nat → Int) : Nat → Totals
  | 0 => ⟨0, 0⟩
  | p + 1 => (reportPass m inp finish (reportTotals m inp finish p) p).2

def reportResults (m : IntArith) (inp : Input) (finish : Nat → Int) (p : Nat) : List Int :=
  (reportPass m inp finish (reportTotals m inp finish p) p).1

/-! ## No overflow -/

/-- In every run of the threads, `now += consumed` and the computations of the
report stay in the range of `int`. -/
structure InRange (m : IntArith) (inp : Input) : Prop where
  clock : ∀ acts s p, Run (Interleave m.advance inp) (Threads.init inp) acts s →
    s.main = .lockDone p →
    s.sliceDone = true → IsInt (s.sched.now + s.consumed)
  report : ∀ acts s, Run (Interleave m.advance inp) (Threads.init inp) acts s → s.main = .finished →
    ∀ p < inp.threads, ∀ x ∈ reportResults m inp s.sched.finish p, IsInt x

end Csc412.RoundRobin
