import Mathlib.Logic.Function.Basic

/-!
# Voting

`resetBallotBox`, `castVote` and `getWinner` of the voting example, and the part of
`main` that launches one goroutine for each vote and waits for them. A step is one
operation on the mutex, on the ballot box or on the wait group; `ballotBox[word]++`
reads and writes in two steps. A word that is not in the map reads as 0.
-/

namespace Csc412.Voting

abbrev Box := String → Int

def resetBallotBox (words : List String) (ballotBox : Box) : Box :=
  words.foldl (fun box word => Function.update box word 0) ballotBox

/-- What `castVote` does next. -/
inductive Pc where
  | unborn
  | lock
  | read
  | write (votes : Int)
  | unlock
  | done
  | returned
  deriving DecidableEq, Repr

/-- `mutex` is the goroutine that holds it, and `launched` how many votes `main` has
started a goroutine for. -/
structure State where
  ballotBox : Box
  mutex : Option Nat
  waitGroup : Int
  launched : Nat
  pc : Nat → Pc

inductive Label where
  | launch
  | act (k : Nat)
  deriving DecidableEq, Repr

/-- `main` after `resetBallotBox`. -/
def start (ballotBox : Box) : State := ⟨ballotBox, none, 0, 0, fun _ => .unborn⟩

/-- `castVote(word)` in goroutine `k`. -/
def castVote (s : State) (k : Nat) (word : String) : Option State :=
  match s.pc k with
  | .unborn | .returned => none
  | .lock => if s.mutex = none
    then some { s with mutex := some k, pc := Function.update s.pc k .read } else none
  | .read => some { s with pc := Function.update s.pc k (.write (s.ballotBox word)) }
  | .write votes =>
    some { s with ballotBox := Function.update s.ballotBox word (votes + 1),
                  pc := Function.update s.pc k .unlock }
  | .unlock => some { s with mutex := none, pc := Function.update s.pc k .done }
  | .done => some { s with waitGroup := s.waitGroup - 1, pc := Function.update s.pc k .returned }

def step (votes : List String) (s : State) : Label → Option State
  | .launch =>
    if s.launched < votes.length then
      some { s with waitGroup := s.waitGroup + 1, launched := s.launched + 1,
                    pc := Function.update s.pc s.launched .lock }
    else none
  | .act k => (votes[k]?).bind fun word => castVote s k word

/-- `main` gets past `waitGroup.Wait`. -/
def State.waited (s : State) (votes : List String) : Prop :=
  s.launched = votes.length ∧ s.waitGroup = 0

/-! ## Counting -/

/-- `maxVotes`, `winner` and `tied`. -/
structure Count where
  maxVotes : Int
  winner : String
  tied : Bool
  deriving DecidableEq, Repr

def countWord (ballotBox : Box) (c : Count) (word : String) : Count :=
  if c.maxVotes < ballotBox word then ⟨ballotBox word, word, false⟩
  else if ballotBox word = c.maxVotes then { c with tied := true }
  else c

def getWinner (words : List String) (ballotBox : Box) : String × Int × Bool :=
  let c := words.foldl (countWord ballotBox) ⟨0, "None", false⟩
  (c.winner, c.maxVotes, c.tied)

end Csc412.Voting
