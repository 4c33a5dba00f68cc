import Mathlib.Data.List.Basic
import Mathlib.Logic.Function.Basic
import Csc412.Lib.Run

/-!
# The round-robin scheduler loop

`main` of `scheduling_rr/main.c`: input validation, the variables of the
scheduler loop, the pick loop, the idle jump, what follows a finished slice,
and the report. Integers are unbounded; `now += consumed` is the parameter
`advance`, so that results which do not depend on the clock's arithmetic can be
stated for any.
-/

namespace Csc412.RoundRobin

/-- What `main` has read once it accepts: one `(at, bt)` pair per thread and the
quantum `q`. -/
structure Input where
  times : List (Int × Int)
  q : Int
  threads_pos : 1 ≤ times.length
  threads_le : times.length ≤ 10
  bt_pos : ∀ t ∈ times, 0 < t.2
  q_pos : 0 < q

namespace Input

def threads (inp : Input) : Nat := inp.times.length

def arr (inp : Input) (k : Nat) : Int := (inp.times.getD k (0, 0)).1

def bt (inp : Input) (k : Nat) : Int := (inp.times.getD k (0, 0)).2

end Input

/-! ## Reading the input -/

def readTimes : Nat → List Int → Except String (List (Int × Int) × List Int)
  | 0, toks => .ok ([], toks)
  | _ + 1, [] => .error "bad Arrival Time value\n"
  | _ + 1, [_] => .error "bad Burst Time value\n"
  | k + 1, a :: b :: toks =>
    if b ≤ 0 then .error "bad Burst Time value\n"
    else match readTimes k toks with
      | .error e => .error e
      | .ok (ts, rest) => .ok ((a, b) :: ts, rest)

theorem readTimes_ok : ∀ {k : Nat} {toks : List Int} {ts : List (Int × Int)} {rest : List Int},
    readTimes k toks = .ok (ts, rest) → ts.length = k ∧ ∀ t ∈ ts, 0 < t.2
  | 0, _, _, _, h => by simp only [readTimes, Except.ok.injEq, Prod.mk.injEq] at h; simp [← h.1]
  | _ + 1, [], _, _, h => by simp [readTimes] at h
  | _ + 1, [_], _, _, h => by simp [readTimes] at h
  | k + 1, a :: b :: toks, ts, rest, h => by
    unfold readTimes at h
    split at h
    · cases h
    · rename_i hb
      split at h
      · cases h
      · rename_i ts' rest' hr
        simp only [Except.ok.injEq, Prod.mk.injEq] at h
        obtain ⟨rfl, rfl⟩ := h
        obtain ⟨hl, hp⟩ := readTimes_ok hr
        refine ⟨by simp [hl], fun t ht => ?_⟩
        rcases List.mem_cons.mp ht with rfl | ht
        · simpa using hb
        · exact hp t ht

/-- The part of `main` before the logging threads, on the integers `scanf`
delivers: the accepted input or the message written to `stderr`. -/
def readInput : List Int → Except String Input
  | [] => .error "threads must be 1..10\n"
  | t :: toks =>
    if h : t < 1 ∨ 10 < t then .error "threads must be 1..10\n"
    else match hr : readTimes t.toNat toks with
      | .error e => .error e
      | .ok (_, []) => .error "bad quantum, oh darn\n"
      | .ok (ts, q :: _) =>
        if hq : q ≤ 0 then .error "bad quantum, oh darn\n"
        else .ok {
          times := ts
          q := q
          threads_pos := by rw [(readTimes_ok hr).1]; omega
          threads_le := by rw [(readTimes_ok hr).1]; omega
          bt_pos := (readTimes_ok hr).2
          q_pos := by omega }

/-! ## The loop's variables -/

/-- `now`, `finished`, `i`, `rem[]` and `finish[]`. -/
structure Sched where
  now : Int
  finished : Nat
  i : Nat
  rem : Nat → Int
  finish : Nat → Int

def Sched.init (inp : Input) : Sched where
  now := 0
  finished := 0
  i := 0
  rem := inp.bt
  finish := fun _ => -1

def runnable (inp : Input) (st : Sched) (k : Nat) : Bool :=
  decide (0 < st.rem k) && decide (inp.arr k ≤ st.now)

/-- The `do … while (i != start_i)` loop: `picked`, and `i` when the loop ends. -/
def pickLoop (inp : Input) (st : Sched) (start : Nat) : Nat → Nat → Option Nat × Nat
  | 0, i => (none, i)
  | fuel + 1, i =>
    if runnable inp st i then (some i, i)
    else
      let i' := (i + 1) % inp.threads
      if i' = start then (none, i') else pickLoop inp st start fuel i'

def pick (inp : Input) (st : Sched) : Option Nat × Nat :=
  pickLoop inp st st.i inp.threads st.i

def nextArrivalStep (inp : Input) (rem : Nat → Int) (next : Int) (k : Nat) : Int :=
  if 0 < rem k then
    if next = -1 ∨ inp.arr k < next then inp.arr k else next
  else next

/-- `next_arrival`, with its `-1` sentinel. -/
def nextArrival (inp : Input) (rem : Nat → Int) : Int :=
  (List.range inp.threads).foldl (nextArrivalStep inp rem) (-1)

def jump (inp : Input) (st : Sched) (i : Nat) : Sched :=
  let next := nextArrival inp st.rem
  { st with i := i, now := if st.now < next then next else st.now }

def grantOf (inp : Input) (st : Sched) (p : Nat) : Int :=
  if st.rem p < inp.q then st.rem p else inp.q

def finishes (st : Sched) (p : Nat) : Bool :=
  decide (st.rem p = 0) && decide (st.finish p = -1)

def afterSlice (advance : Int → Int → Int) (inp : Input) (st : Sched) (p : Nat) (consumed : Int) :
    Sched :=
  let now := advance st.now consumed
  if finishes st p then
    { st with
      now := now
      finish := Function.update st.finish p now
      finished := st.finished + 1
      i := (p + 1) % inp.threads }
  else { st with now := now, i := (p + 1) % inp.threads }

/-! ## The sequential loop -/

/-- One iteration: an idle jump between two clock values, or a slice of a thread
with its start, its length and whether `finish[p]` is written after it. -/
inductive Event where
  | jump (start stop : Int)
  | slice (p : Nat) (start len : Int) (fin : Bool)
  deriving DecidableEq, Repr

def serve (st : Sched) (p : Nat) (len : Int) : Sched :=
  { st with rem := Function.update st.rem p (st.rem p - len) }

/-- The loop body with the slice done in place: `min (q, rem)` is subtracted from
the picked thread. -/
def iterate (advance : Int → Int → Int) (inp : Input) (st : Sched) : Event × Sched :=
  match pick inp st with
  | (none, i) => (.jump st.now (jump inp st i).now, jump inp st i)
  | (some p, _) =>
    let len := grantOf inp st p
    let st' := serve st p len
    (.slice p st.now len (finishes st' p), afterSlice advance inp st' p len)

def loopStep (advance : Int → Int → Int) (inp : Input) (st : Sched) (e : Event) (st' : Sched) :
    Prop :=
  st.finished < inp.threads ∧ iterate advance inp st = (e, st')

/-! ## The report -/

structure Line where
  tat : Int
  wt : Int
  deriving DecidableEq, Repr

def reportLine (inp : Input) (finish : Nat → Int) (p : Nat) : Line :=
  let tat := finish p - inp.arr p
  let wt := tat - inp.bt p
  { tat := tat, wt := if wt < 0 then 0 else wt }

end Csc412.RoundRobin
