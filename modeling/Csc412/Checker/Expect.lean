import Mathlib.Computability.RegularExpressions

/-!
# The checker of the allocator tests

`check.pl` compares what a test prints with the `//!` lines of its source. Here are the
expression that `read_expected` makes of `??>=N??`, and `run_compare`. How the other
parts of a line become an expression is left to Perl, and so is `compare_test_line`.
-/

namespace Csc412.Checker

open RegularExpression

/-! ## Numbers -/

abbrev Digit := Fin 10

/-- `[d-9]`, which is `\d` for zero. -/
def digitFrom (d : Nat) : RegularExpression Digit :=
  (((List.finRange 10).filter fun c => d ≤ c.val).map char).sum

def anyDigit : RegularExpression Digit := digitFrom 0

/-- `0*`. -/
def zeros : RegularExpression Digit := star (char 0)

/-- `\d\x7bk,\x7d`. -/
def manyDigits (k : Nat) : RegularExpression Digit := anyDigit ^ k * star anyDigit

def literal (ds : List Digit) : RegularExpression Digit := (ds.map char).prod

/-- `s/\A0+(?=[1-9]|0\z)//`. -/
def stripZeros (contents : List Digit) : List Digit :=
  match contents.dropWhile (· = 0) with
  | [] => contents.drop (contents.length - 1)
  | ds => ds

/-- `$dig[$i]`. -/
def digitAt (dig : List Digit) (i : Nat) : Digit := dig.getD i 0

/-- Round `i` of the loop over the digits `dig`. -/
def alternative (dig : List Digit) (i : Nat) : Option (RegularExpression Digit) :=
  let d := digitAt dig i
  if i + 1 = dig.length then some (zeros * (literal (dig.take i) * digitFrom d))
  else if d = 9 then none
  else some (zeros * (literal (dig.take i) *
    (digitFrom (d + 1) * anyDigit ^ (dig.length - (i + 1)))))

/-- `@y`. -/
def alternatives (dig : List Digit) : List (RegularExpression Digit) :=
  (zeros * (digitFrom 1 * manyDigits dig.length)) ::
    (List.range dig.length).filterMap (alternative dig)

def atLeast (contents : List Digit) : RegularExpression Digit :=
  (alternatives (stripZeros contents)).sum

def showDigits (ds : List Digit) : List Char := ds.map fun d => Nat.digitChar d

/-- The expression of `??>=contents??`, with its `(?!\d)`, matches what is between the
positions `s` and `s'` of a line. -/
def NumberSpans (contents : List Digit) (s s' : List Char) : Prop :=
  ∃ ds, (atLeast contents).rmatch ds = true ∧ s = showDigits ds ++ s' ∧ ∀ c ∈ s'.head?,
    c.isDigit = false

/-! ## `run_compare` -/

/-- An expected line with its regular expression; `skip` says that `//! ???` stands
before it. -/
structure ExpLine (R : Type) where
  line : Nat
  skip : Bool
  r : R

structure Expected (R : Type) where
  l : List (ExpLine R)
  skip : Bool
  unordered : Bool
  allowAsanWarning : Bool

inductive Verdict where
  | ok
  -- at a line of the output, and the line of the source that was expected there
  | tooMuch (a : Nat)
  | unexpected (a : Nat) (line : Nat)
  | missing (a : Nat) (line : Nat)
  deriving DecidableEq, Repr

/-- `\s`: a space, or a tab, a newline, a vertical tab, a form feed or a carriage return. -/
def perlSpace (c : Char) : Bool := c.toNat = 32 ∨ 9 ≤ c.toNat ∧ c.toNat ≤ 13

/-- `/^==\d+==\s*WARNING: AddressSanitizer failed to allocate/`. -/
def asanWarning (line : String) : Bool :=
  match line.toList with
  | '=' :: '=' :: cs =>
    match cs.takeWhile Char.isDigit, cs.dropWhile Char.isDigit with
    | _ :: _, '=' :: '=' :: cs =>
      "WARNING: AddressSanitizer failed to allocate".toList.isPrefixOf (cs.dropWhile perlSpace)
    | _, _ => false
  | _ => false

section
variable {R C : Type}

/-- The search for an expected line that the line `x` matches. `compare` is
`compare_test_line`, and `c` are the chunks that matches have named so far. -/
def pick (compare : C → String → R → Option C) (unordered : Bool) (c : C) (x : String) :
    List (ExpLine R) → Option (C × List (ExpLine R))
  | [] => none
  | e :: es =>
    match compare c x e.r with
    | some c => some (c, es)
    | none =>
      if unordered then (pick compare unordered c x es).map fun p => (p.1, e :: p.2) else none

/-- The loop over the lines of the output from line `a` on, and what follows it. -/
def compareFrom (compare : C → String → R → Option C) (exp : Expected R) (a : Nat) (c : C)
    (explines : List (ExpLine R)) :
    List String → Verdict
  | [] =>
    match explines with
    | [] => .ok
    | e :: _ => .missing a e.line
  | x :: xs =>
    if asanWarning x ∧ exp.allowAsanWarning then compareFrom compare exp (a + 1) c explines xs
    else
      match explines with
      | [] => if exp.skip then compareFrom compare exp (a + 1) c [] xs else .tooMuch (a + 1)
      | e :: es =>
        match pick compare exp.unordered c x (e :: es) with
        | some (c, rest) => compareFrom compare exp (a + 1) c rest xs
        | none =>
          if e.skip then compareFrom compare exp (a + 1) c (e :: es) xs
          else .unexpected (a + 1) e.line

def runCompare (compare : C → String → R → Option C) (chunks : C) (exp : Expected R)
    (actual : List String) : Verdict :=
  compareFrom compare exp 0 chunks exp.l actual

end

end Csc412.Checker
