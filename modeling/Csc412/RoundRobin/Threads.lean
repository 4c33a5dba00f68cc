import Csc412.RoundRobin.Scheduler

/-!
# The threaded scheduler

`main` and `rr_thread` of `scheduling_rr/main.c` as threads that share the loop's
variables through one mutex and two condition variables. A step is one critical
section: from acquiring the mutex (by `pthread_mutex_lock` or on return from
`pthread_cond_wait`) to releasing it. Only `main` keeps the mutex from one step to
the next, while it is at the head of its loop. `pthread_create` is taken to
succeed.
-/

namespace Csc412.RoundRobin

def maxThreadsLog : Nat := 4

/-- Where a worker stands. `lockStart` and `lockTurn` wait for the mutex to test
`all_started` or their turn; `waitStart` and `waitTurn` sleep on `cv_turn`. -/
inductive WorkerPc where
  | unborn
  | lockStart
  | waitStart
  | lockTurn
  | waitTurn
  | working (slice : Int)
  | done
  deriving DecidableEq, Repr

inductive LogPc where
  | unborn
  | running
  | done
  deriving DecidableEq, Repr

/-- Where `main` stands. At `loop` it holds the mutex; at `waitDone p` it sleeps on
`cv_done` after granting `p` a slice, and at `lockDone p` it waits for the mutex to
test `slice_done`. -/
inductive MainPc where
  | spawnLog (t : Nat)
  | spawn (k : Nat)
  | lock
  | loop
  | waitDone (p : Nat)
  | lockDone (p : Nat)
  | join (t : Nat)
  | joinLog (t : Nat)
  | finished
  deriving DecidableEq, Repr

structure Threads where
  main : MainPc
  worker : Nat → WorkerPc
  log : Nat → LogPc
  sched : Sched
  turnId : Int
  grant : Int
  consumed : Int
  sliceDone : Bool
  allStarted : Bool
  stop : Bool

def Threads.init (inp : Input) : Threads where
  main := .spawnLog 0
  worker := fun _ => .unborn
  log := fun _ => .unborn
  sched := Sched.init inp
  turnId := -1
  grant := 0
  consumed := 0
  sliceDone := false
  allStarted := false
  stop := false

def WorkerPc.woken : WorkerPc → WorkerPc
  | .waitStart => .lockStart
  | .waitTurn => .lockTurn
  | pc => pc

def MainPc.woken : MainPc → MainPc
  | .waitDone p => .lockDone p
  | pc => pc

def Threads.broadcastTurn (s : Threads) : Threads :=
  { s with worker := fun w => (s.worker w).woken }

/-- `pthread_cond_signal(cv_done)`: only `main` ever sleeps on it. -/
def Threads.signalDone (s : Threads) : Threads := { s with main := s.main.woken }

def Threads.setWorker (s : Threads) (w : Nat) (pc : WorkerPc) : Threads :=
  { s with worker := Function.update s.worker w pc }

/-! ## Workers -/

def sliceOf (grant rem : Int) : Int :=
  let slice := if grant ≤ 0 then 1 else grant
  if rem < slice then rem else slice

def Threads.report (s : Threads) (consumed : Int) : Threads :=
  { s with consumed := consumed, turnId := -1, sliceDone := true }.signalDone

/-- `rr_thread` from the head of its `for` loop, holding the mutex, until it
releases it. -/
def turnTest (s : Threads) (w : Nat) : Threads :=
  if s.stop = false ∧ s.turnId ≠ (w : Int) then s.setWorker w .waitTurn
  else if s.stop then s.setWorker w .done
  else if s.sched.rem w ≤ 0 then
    -- shouldn't be scheduled: report an empty slice; `turn_id` is -1 at the next test
    (s.report 0).setWorker w .waitTurn
  else s.setWorker w (.working (sliceOf s.grant (s.sched.rem w)))

def endSlice (s : Threads) (w : Nat) (slice : Int) : Threads :=
  turnTest ({ s with sched := serve s.sched w slice }.report slice) w

def workerStep (s : Threads) (w : Nat) : Option Threads :=
  if s.main = .loop then none
  else match s.worker w with
    | .lockStart => some (if s.allStarted then turnTest s w else s.setWorker w .waitStart)
    | .lockTurn => some (turnTest s w)
    | .working slice => some (endSlice s w slice)
    | _ => none

/-! ## The scheduler -/

/-- The loop of `main`, holding the mutex, from its head until it releases the
mutex or is back at its head. -/
def loopBody (inp : Input) (s : Threads) : Threads :=
  if s.sched.finished < inp.threads then
    match pick inp s.sched with
    | (none, i) => { s with sched := jump inp s.sched i }
    | (some p, i) =>
      { s with
        sched := { s.sched with i := i }
        turnId := p
        grant := grantOf inp s.sched p
        sliceDone := false
        main := .waitDone p }.broadcastTurn
  else { s with stop := true, main := .join 0 }.broadcastTurn

def mainStep (advance : Int → Int → Int) (inp : Input) (s : Threads) : Option Threads :=
  match s.main with
  | .spawnLog t =>
    if t < maxThreadsLog then some { s with log := Function.update s.log t .running,
                                            main := .spawnLog (t + 1) }
    else some { s with main := .spawn 0 }
  | .spawn k =>
    if k < inp.threads then some { s.setWorker k .lockStart with main := .spawn (k + 1) }
    else some { s with main := .lock }
  | .lock => some { s with allStarted := true, main := .loop }.broadcastTurn
  | .loop => some (loopBody inp s)
  | .waitDone _ => none
  | .lockDone p =>
    if s.sliceDone then some { s with sched := afterSlice advance inp s.sched p s.consumed,
                                      main := .loop }
    else some { s with main := .waitDone p }
  | .join t =>
    if t < inp.threads then
      if s.worker t = .done then some { s with main := .join (t + 1) } else none
    else some { s with main := .joinLog 0 }
  | .joinLog t =>
    if t < maxThreadsLog then
      if s.log t = .done then some { s with main := .joinLog (t + 1) } else none
    else some { s with main := .finished }
  | .finished => none

/-! ## Interleavings -/

inductive Act where
  | main
  | worker (w : Nat)
  | log (t : Nat)
  | wakeMain
  | wakeWorker (w : Nat)
  deriving DecidableEq, Repr

def Act.spurious : Act → Bool
  | .wakeMain => true
  | .wakeWorker _ => true
  | _ => false

def step (advance : Int → Int → Int) (inp : Input) (s : Threads) : Act → Option Threads
  | .main => mainStep advance inp s
  | .worker w => workerStep s w
  | .log t =>
    if s.log t = .running then some { s with log := Function.update s.log t .done } else none
  | .wakeMain => some s.signalDone
  | .wakeWorker w => some (s.setWorker w (s.worker w).woken)

def Interleave (advance : Int → Int → Int) (inp : Input) (s : Threads) (a : Act) (s' : Threads) :
    Prop :=
  step advance inp s a = some s'

end Csc412.RoundRobin
