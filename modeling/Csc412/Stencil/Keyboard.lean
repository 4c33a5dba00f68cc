import Mathlib.Algebra.Group.Int.Defs
import Mathlib.Data.Int.Init

/-!
# The keys of the stencil

`myKeyboard` of `stencil_old/ascii_art.cpp` with the functions of `main.cpp` that it calls.
An `int` has 32 bits, and a signed operation that overflows ends the program, as the escape
key does.
-/

namespace Csc412.Stencil

inductive Stop where
  | overflow
  | quit
deriving DecidableEq

/-- The global variables that a key may change. -/
structure Controls where
  redLevel : Int
  greenLevel : Int
  blueLevel : Int
  producerSleepTime : Int
  inklingSleepTime : Int
deriving DecidableEq

def initial : Controls := ⟨20, 10, 40, 100000, 1000000⟩

def maxLevel : Int := 50

def maxAddInk : Int := 10

def minSleepTime : Int := 30000

/-- The value of a signed operation. -/
def int (x : Int) : Except Stop Int := if -2 ^ 31 ≤ x ∧ x < 2 ^ 31 then .ok x else .error .overflow

def refill (level theInk : Int) : Except Stop (Bool × Int) := do
  let sum ← int (level + theInk)
  if sum ≤ maxLevel then .ok (true, sum) else .ok (false, level)

def refillRedInk (s : Controls) (theRed : Int) : Except Stop (Bool × Controls) := do
  let (ok, level) ← refill s.redLevel theRed
  .ok (ok, { s with redLevel := level })

def refillGreenInk (s : Controls) (theGreen : Int) : Except Stop (Bool × Controls) := do
  let (ok, level) ← refill s.greenLevel theGreen
  .ok (ok, { s with greenLevel := level })

def refillBlueInk (s : Controls) (theBlue : Int) : Except Stop (Bool × Controls) := do
  let (ok, level) ← refill s.blueLevel theBlue
  .ok (ok, { s with blueLevel := level })

def speedupProducers (s : Controls) : Except Stop Controls := do
  let newSleepTime := (← int (8 * s.producerSleepTime)).tdiv 10
  if newSleepTime > minSleepTime then .ok { s with producerSleepTime := newSleepTime } else .ok s

def slowdownProducers (s : Controls) : Except Stop Controls := do
  .ok { s with producerSleepTime := (← int (12 * s.producerSleepTime)).tdiv 10 }

/-- The keys `+` and `-` work on the sleep time in place. -/
def speedupInklings (s : Controls) : Except Stop Controls := do
  if (← int (s.inklingSleepTime - 100000)) > 0 then
    .ok { s with inklingSleepTime := ← int (s.inklingSleepTime - 100000) }
  else .ok s

def slowdownInklings (s : Controls) : Except Stop Controls := do
  if (← int (s.inklingSleepTime + 100000)) < 2147483647 then
    .ok { s with inklingSleepTime := ← int (s.inklingSleepTime + 100000) }
  else .ok s

def myKeyboard (s : Controls) (c : UInt8) : Except Stop Controls :=
  match c.toNat with
  | 27 => .error .quit
  | 0x3C => slowdownProducers s
  | 0x3E => speedupProducers s
  | 0x72 => do .ok (← refillRedInk s maxAddInk).2
  | 0x2B => speedupInklings s
  | 0x2D => slowdownInklings s
  | 0x67 => do .ok (← refillGreenInk s maxAddInk).2
  | 0x62 => do .ok (← refillBlueInk s maxAddInk).2
  | _ => .ok s

end Csc412.Stencil
