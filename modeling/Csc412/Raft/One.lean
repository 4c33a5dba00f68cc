import Csc412.Raft.Applier

/-!
# Waiting for an agreement

`nCommitted`, `wait` and `one` of `raft/config.go`. The goroutine of the test calls
`one` and `wait` one after another while the loops of the servers go on. `nCommitted`
takes `cfg.mu` for one server at a time. What the clock and the Raft servers answer is
part of a step's label, and `applyErr` is left out: it is set after `log.Fatalf` only.
-/

namespace Csc412.Raft

/-- The arguments of `one`, and of `wait`, whose `n` is `expectedServers`. -/
structure AgreeArgs (V : Type) where
  cmd : Option V
  expectedServers : Int
  retry : Bool
  startTerm : Int

/-- The variables of `nCommitted` before it looks at server `i`. -/
structure Poll (V : Type) where
  i : Nat
  count : Nat
  cmd : Option V

/-- Where `nCommitted` was called: in `one`, in the loop of `wait` or behind it. -/
inductive Caller where
  | one (starts : Nat)
  | wait (iters : Nat)
  | last

inductive AgreePc (V : Type) where
  | looping (starts : Nat)
  | trying (starts si : Nat)
  | polling (starts : Nat) (index : Int)
  | waiting (index : Int) (iters : Nat)
  | counting (index : Int) (poll : Poll V) (caller : Caller)
  | sleeping (index : Int) (iters : Nat)
  -- `one` and `wait` have returned; `movedOn` is the `-1` of `wait`
  | returned (index : Int)
  | decided (index : Int) (cmd : Option V)
  | movedOn
  | failed

/-- The test's goroutine beside the loops of the servers. -/
structure Test (V B : Type) where
  tester : Tester V B
  args : AgreeArgs V
  pc : AgreePc V

inductive TestLabel (V B : Type) where
  | apply (l : Apply V B)
  | one (args : AgreeArgs V)
  | wait (index : Int) (args : AgreeArgs V)
  -- the outer loop of `one` goes on or ends
  | again
  | giveUp (finished : Bool)
  -- server `starts` is connected and `Start` returned an index, or not
  | start (index : Option Int)
  -- the two seconds are over, or not
  | within
  | expire
  | look
  -- some server has a term above `startTerm`
  | wake (moved : Bool)

section
variable {V B : Type}

def makeTest : Test V B := ⟨makeTester, ⟨none, 0, false, -1⟩, .movedOn⟩

namespace Poll

def start : Poll V := ⟨0, 0, none⟩

/-- One round of the loop; a mismatch ends the test. -/
def read [DecidableEq V] (p : Poll V) : Option (Option V) → Option (Poll V)
  | none => some { p with i := p.i + 1 }
  | some cmd1 => if 0 < p.count ∧ p.cmd ≠ cmd1 then none else some ⟨p.i + 1, p.count + 1, cmd1⟩

end Poll

namespace AgreePc

def ended : AgreePc V → Bool
  | .returned _ | .decided _ _ | .movedOn => true
  | _ => false

/-- What follows a call of `nCommitted` that returned. -/
def resume [DecidableEq V] (a : AgreeArgs V) (index : Int) (p : Poll V) : Caller → AgreePc V
  | .one starts =>
    if 0 < p.count ∧ a.expectedServers ≤ p.count ∧ p.cmd = a.cmd then .returned index
      else .polling starts index
  | .wait iters =>
    if a.expectedServers ≤ p.count then .counting index .start .last else .sleeping index iters
  | .last => if a.expectedServers ≤ p.count then .decided index p.cmd else .failed

/-- After `Start` of server `starts`, the round `si` of the loop over the servers. -/
def started (n starts si : Nat) : Option Int → AgreePc V
  | some index => if index ≠ -1 then .polling starts index else .looping starts
  | none => if si + 1 < n then .trying starts (si + 1) else .looping starts

end AgreePc

namespace Test

/-- The steps of the test's goroutine that call nothing. -/
def proceed [DecidableEq V] (n : Nat) (t : Test V B) : TestLabel V B → Option (AgreePc V)
  | .again =>
    match t.pc with
    | .looping starts => some (if 0 < n then .trying starts 0 else .looping starts)
    | _ => none
  | .giveUp finished =>
    match t.pc with
    | .looping _ => some (if finished then .returned (-1) else .failed)
    | _ => none
  | .start index =>
    match t.pc with
    | .trying starts si => some (.started n ((starts + 1) % n) si index)
    | _ => none
  | .within =>
    match t.pc with
    | .polling starts index => some (.counting index .start (.one starts))
    | _ => none
  | .expire =>
    match t.pc with
    | .polling starts _ => some (if t.args.retry = false then .failed else .looping starts)
    | _ => none
  | .look =>
    match t.pc with
    | .waiting index iters =>
      some (.counting index .start (if iters < 30 then .wait iters else .last))
    | .counting index p caller =>
      if p.i < n then
        match p.read (t.tester.logs p.i index) with
        | some p => some (.counting index p caller)
        | none => some .failed
      else some (.resume t.args index p caller)
    | _ => none
  | .wake moved =>
    match t.pc with
    | .sleeping index iters => some (if -1 < t.args.startTerm ∧ moved then .movedOn
      else .waiting index (iters + 1))
    | _ => none
  | _ => none

def step [DecidableEq V] [DecidableEq B] [ToString V] (G : SnapGob V B) (n : Nat) (t : Test V B) :
    TestLabel V B → Option (Test V B)
  | .apply l => (t.tester.step G n l).map fun s => { t with tester := s }
  | .one args => if t.tester.fatal = false ∧ t.pc.ended
    then some { t with args := args, pc := .looping 0 } else none
  | .wait index args => if t.tester.fatal = false ∧ t.pc.ended
    then some { t with args := args, pc := .waiting index 0 } else none
  | l => if t.tester.fatal = false then (t.proceed n l).map fun pc => { t with pc := pc } else none

end Test

end

end Csc412.Raft
