import Csc412.RoundRobin.SchedulerSound
import Csc412.RoundRobin.Threads

/-!
# The threaded scheduler refines the sequential loop

`Rel inp s st` relates a state of the threads to the sequential loop's state at the
last head of the loop. A slice is pending until its worker reports it and
completed until `main` has seen the report; everything else follows from which of
the two holds.
-/

namespace Csc412.RoundRobin

open Lib

/-! ## Turn tests -/

section
variable {s : Threads} {w : Nat}

theorem turnTest_wait (h₁ : s.stop = false) (h₂ : s.turnId ≠ (w : Int)) :
    turnTest s w = s.setWorker w .waitTurn := by simp [turnTest, h₁, h₂]

theorem turnTest_stop (h : s.stop = true) : turnTest s w = s.setWorker w .done := by
  simp [turnTest, h]

theorem turnTest_main (h : s.stop = true ∨ s.turnId ≠ (w : Int) ∨ 0 < s.sched.rem w) :
    (turnTest s w).main = s.main := by
  unfold turnTest
  split
  · rfl
  · split
    · rfl
    · split
      · rename_i h₁ h₂ h₃
        rcases h with h | h | h
        · exact absurd h h₂
        · exact absurd ⟨by simpa using h₂, h⟩ h₁
        · omega
      · rfl

theorem turnTest_work (h₁ : s.stop = false) (h₂ : s.turnId = (w : Int)) (h₃ : 0 < s.sched.rem w) :
    turnTest s w = s.setWorker w (.working (sliceOf s.grant (s.sched.rem w))) := by
  simp [turnTest, h₁, h₂, not_le.mpr h₃]

theorem setWorker_worker (s : Threads) (w : Nat) (pc : WorkerPc) (k : Nat) :
    (s.setWorker w pc).worker k = if k = w then pc else s.worker k := by
  simp [Threads.setWorker, Function.update_apply]

theorem broadcastTurn_worker (s : Threads) (k : Nat) :
    s.broadcastTurn.worker k = (s.worker k).woken := rfl

theorem sliceOf_grant {g r : Int} (h₁ : 0 < g) (h₂ : g ≤ r) : sliceOf g r = g := by
  unfold sliceOf
  simp only
  split_ifs <;> omega

/-- Everything a worker can do: test its turn, go to sleep before the start, or end
its slice. -/
theorem workerStep_cases {s' : Threads} (h : workerStep s w = some s') :
    s.main ≠ .loop ∧
      ((s.worker w = .lockStart ∧ s.allStarted = false ∧ s' = s.setWorker w .waitStart) ∨
       ((s.worker w = .lockStart ∧ s.allStarted = true ∨ s.worker w = .lockTurn) ∧
         s' = turnTest s w) ∨
       ∃ slice, s.worker w = .working slice ∧ s' = endSlice s w slice) := by
  unfold workerStep at h
  split at h
  · cases h
  · rename_i hm
    refine ⟨hm, ?_⟩
    split at h
    · rename_i hw
      cases ha : s.allStarted with
      | false =>
        simp only [ha, Bool.false_eq_true, ite_false, Option.some.injEq] at h; exact .inl ⟨hw,
          rfl, h.symm⟩
      | true =>
        simp only [ha, ite_true, Option.some.injEq] at h; exact .inr (.inl ⟨.inl ⟨hw, rfl⟩, h.symm⟩)
    · rename_i hw
      simp only [Option.some.injEq] at h
      exact .inr (.inl ⟨.inr hw, h.symm⟩)
    · rename_i slice hw
      simp only [Option.some.injEq] at h
      exact .inr (.inr ⟨slice, hw, h.symm⟩)
    · cases h

end

/-! ## The handshake -/

structure Starting (s : Threads) (st : Sched) : Prop where
  sched : s.sched = st
  allStarted : s.allStarted = false
  stop : s.stop = false
  turnId : s.turnId = -1
  worker : ∀ w, s.worker w = .unborn ∨ s.worker w = .lockStart ∨ s.worker w = .waitStart

structure Started (inp : Input) (s : Threads) : Prop where
  allStarted : s.allStarted = true
  awake : ∀ w, s.worker w ≠ .waitStart
  born : ∀ w < inp.threads, s.worker w ≠ .unborn
  alive : s.stop = false → ∀ w, s.worker w ≠ .done

def Idle (s : Threads) : Prop := ∀ w slice, s.worker w ≠ .working slice

/-- A slice granted to `p` at loop state `st`. -/
structure Granted (inp : Input) (s : Threads) (st : Sched) (p : Nat) : Prop where
  i_lt : st.i < inp.threads
  started : Started inp s
  stop : s.stop = false
  unfinished : st.finished < inp.threads
  picked : search inp.threads (runnable inp st) inp.threads st.i = some p
  grant : s.grant = grantOf inp st p

/-- The slice has not been reported: only `p` may act on it, and `p` is awake. -/
structure Pending (inp : Input) (s : Threads) (st : Sched) (p : Nat) :
    Prop extends Granted inp s st p where
  turnId : s.turnId = p
  sliceDone : s.sliceDone = false
  sched : s.sched = { st with i := p }
  others : ∀ w slice, w ≠ p → s.worker w ≠ .working slice
  worker : s.worker p = .lockStart ∨ s.worker p = .lockTurn ∨
    s.worker p = .working (grantOf inp st p)

/-- The slice has been reported and `main` is awake to see it. -/
structure Completed (inp : Input) (s : Threads) (st : Sched) (p : Nat) :
    Prop extends Granted inp s st p where
  main : s.main = .lockDone p
  turnId : s.turnId = -1
  sliceDone : s.sliceDone = true
  consumed : s.consumed = grantOf inp st p
  sched : s.sched = serve { st with i := p } p (grantOf inp st p)
  idle : Idle s

structure Stopping (inp : Input) (s : Threads) (st : Sched) : Prop where
  sched : s.sched = st
  finished : ¬ st.finished < inp.threads
  started : Started inp s
  stop : s.stop = true
  idle : Idle s
  awake : ∀ w, s.worker w ≠ .waitTurn

def MainPc.target : MainPc → Option Nat
  | .waitDone p => some p
  | .lockDone p => some p
  | _ => none

structure AtHead (inp : Input) (s : Threads) (st : Sched) : Prop where
  sched : s.sched = st
  started : Started inp s
  stop : s.stop = false
  turnId : s.turnId = -1
  idle : Idle s

def RelAt (inp : Input) (s : Threads) (st : Sched) : MainPc → Prop
  | .spawnLog _ => Starting s st
  | .spawn k => Starting s st ∧ ∀ w < k, s.worker w ≠ .unborn
  | .lock => Starting s st ∧ ∀ w < inp.threads, s.worker w ≠ .unborn
  | .loop => AtHead inp s st
  | .waitDone p => Pending inp s st p
  | .lockDone p => Pending inp s st p ∨ Completed inp s st p
  | .join _ => Stopping inp s st
  | .joinLog _ => Stopping inp s st
  | .finished => Stopping inp s st

/-- The threads against the sequential loop's state at the last loop head. -/
structure Rel (inp : Input) (s : Threads) (st : Sched) : Prop where
  i_lt : st.i < inp.threads
  at_main : RelAt inp s st s.main

theorem rel_init (inp : Input) : Rel inp (Threads.init inp) (Sched.init inp) :=
  ⟨inp.threads_pos, rfl, rfl, rfl, rfl, fun _ => .inl rfl⟩

/-! ## Waking up -/

theorem woken_ne_working {pc : WorkerPc} (h : ∀ slice, pc ≠ .working slice) (slice : Int) :
    pc.woken ≠ .working slice := by
  cases pc <;> simp_all [WorkerPc.woken]

theorem woken_ne_unborn {pc : WorkerPc} (h : pc ≠ .unborn) : pc.woken ≠ .unborn := by
  cases pc <;> simp_all [WorkerPc.woken]

theorem woken_ne_done {pc : WorkerPc} (h : pc ≠ .done) : pc.woken ≠ .done := by
  cases pc <;> simp_all [WorkerPc.woken]

theorem woken_ne_waitStart (pc : WorkerPc) : pc.woken ≠ .waitStart := by
  cases pc <;> simp [WorkerPc.woken]

theorem woken_ne_waitTurn (pc : WorkerPc) : pc.woken ≠ .waitTurn := by
  cases pc <;> simp [WorkerPc.woken]

def Wakes (s : Threads) (f : Nat → WorkerPc) : Prop :=
  ∀ w, f w = s.worker w ∨ f w = (s.worker w).woken

section
variable {inp : Input} {s : Threads} {st : Sched} {f : Nat → WorkerPc} {g : Nat → LogPc}
    (hf : Wakes s f)
include hf

theorem Wakes.ne_unborn {w : Nat} (h : s.worker w ≠ .unborn) : f w ≠ .unborn := by
  rcases hf w with e | e <;> rw [e]
  · exact h
  · exact woken_ne_unborn h

theorem Wakes.starting (h : Starting s st) : Starting { s with worker := f, log := g } st := by
  refine ⟨h.sched, h.allStarted, h.stop, h.turnId, fun w => ?_⟩
  have hw := h.worker w
  simp only
  rcases hf w with e | e <;> rw [e]
  · exact hw
  · rcases hw with hw | hw | hw <;> simp [hw, WorkerPc.woken]

theorem Wakes.started (h : Started inp s) : Started inp { s with worker := f, log := g } := by
  refine ⟨h.allStarted, fun w => ?_, fun w hw => hf.ne_unborn (h.born w hw), fun hs w => ?_⟩
  · simp only
    rcases hf w with e | e <;> rw [e]
    · exact h.awake w
    · exact woken_ne_waitStart _
  · simp only
    rcases hf w with e | e <;> rw [e]
    · exact h.alive hs w
    · exact woken_ne_done (h.alive hs w)

theorem Wakes.not_working {w : Nat} (h : ∀ slice, s.worker w ≠ .working slice) (slice : Int) :
    f w ≠ .working slice := by
  rcases hf w with e | e <;> rw [e]
  · exact h slice
  · exact woken_ne_working h slice

theorem Wakes.idle (h : Idle s) : Idle { s with worker := f, log := g } :=
  fun w slice => hf.not_working (h w) slice

theorem Wakes.granted {p : Nat} (h : Granted inp s st p) :
    Granted inp { s with worker := f, log := g } st p :=
  ⟨h.i_lt, hf.started h.started, h.stop, h.unfinished, h.picked, h.grant⟩

theorem Wakes.pending {p : Nat} (h : Pending inp s st p) :
    Pending inp { s with worker := f, log := g } st p := by
  refine ⟨hf.granted h.toGranted, h.turnId, h.sliceDone, h.sched,
    fun w slice hw => hf.not_working (fun sl => h.others w sl hw) slice, ?_⟩
  have hp := h.worker
  simp only
  rcases hf p with e | e <;> rw [e]
  · exact hp
  · rcases hp with hp | hp | hp <;> simp [hp, WorkerPc.woken]

theorem Wakes.completed {p : Nat} (h : Completed inp s st p) :
    Completed inp { s with worker := f, log := g } st p :=
  ⟨hf.granted h.toGranted, h.main, h.turnId, h.sliceDone, h.consumed, h.sched, hf.idle h.idle⟩

theorem Wakes.stopping (h : Stopping inp s st) :
    Stopping inp { s with worker := f, log := g } st := by
  refine ⟨h.sched, h.finished, hf.started h.started, h.stop, hf.idle h.idle, fun w => ?_⟩
  simp only
  rcases hf w with e | e <;> rw [e]
  · exact h.awake w
  · exact woken_ne_waitTurn _

theorem Wakes.head (h : AtHead inp s st) : AtHead inp { s with worker := f, log := g } st :=
  ⟨h.sched, hf.started h.started, h.stop, h.turnId, hf.idle h.idle⟩

theorem Wakes.relAt {pc : MainPc} (h : RelAt inp s st pc) :
    RelAt inp { s with worker := f, log := g } st pc := by
  cases pc with
  | spawnLog t => exact hf.starting h
  | spawn k => exact ⟨hf.starting h.1, fun w hw => hf.ne_unborn (h.2 w hw)⟩
  | lock => exact ⟨hf.starting h.1, fun w hw => hf.ne_unborn (h.2 w hw)⟩
  | loop => exact hf.head h
  | waitDone p => exact hf.pending h
  | lockDone p => exact h.imp hf.pending hf.completed
  | join t => exact hf.stopping h
  | joinLog t => exact hf.stopping h
  | finished => exact hf.stopping h

theorem Wakes.rel (h : Rel inp s st) : Rel inp { s with worker := f, log := g } st :=
  ⟨h.i_lt, hf.relAt h.at_main⟩

end

theorem wakes_one (s : Threads) (w : Nat) :
    Wakes s (Function.update s.worker w (s.worker w).woken) := by
  intro k
  by_cases h : k = w
  · subst h; right; simp
  · left; simp [h]

theorem wakes_none (s : Threads) : Wakes s s.worker := fun _ => .inl rfl

theorem wakes_all (s : Threads) : Wakes s fun w => (s.worker w).woken := fun _ => .inr rfl

/-! ## One worker's pc changes -/

section
variable {inp : Input} {s : Threads} {st : Sched} {w : Nat} {pc : WorkerPc}

theorem Started.setWorker (h : Started inp s) (h₁ : pc ≠ .waitStart) (h₂ : pc ≠ .unborn)
    (h₃ : s.stop = false → pc ≠ .done) : Started inp (s.setWorker w pc) := by
  refine ⟨h.allStarted, fun k => ?_, fun k hk => ?_, fun hs k => ?_⟩ <;>
    rw [setWorker_worker] <;> split
  · exact h₁
  · exact h.awake k
  · exact h₂
  · exact h.born k hk
  · exact h₃ hs
  · exact h.alive hs k

theorem Idle.setWorker (h : Idle s) (hpc : ∀ slice, pc ≠ .working slice) :
    Idle (s.setWorker w pc) := by
  intro k slice
  rw [setWorker_worker]
  split
  · exact hpc slice
  · exact h k slice

theorem Granted.setWorker {p : Nat} (h : Granted inp s st p) (h₁ : pc ≠ .waitStart)
    (h₂ : pc ≠ .unborn) (h₃ : pc ≠ .done) : Granted inp (s.setWorker w pc) st p :=
  ⟨h.i_lt, h.started.setWorker h₁ h₂ fun _ => h₃, h.stop, h.unfinished, h.picked, h.grant⟩

theorem Granted.rem_pos {p : Nat} (h : Granted inp s st p) : p < inp.threads ∧ 0 < st.rem p := by
  obtain ⟨hp, hrun, -⟩ := search_some h.i_lt h.picked
  exact ⟨hp, (runnable_iff.mp hrun).1⟩

theorem Pending.sleep {p : Nat} (h : Pending inp s st p) (hw : w ≠ p) :
    Pending inp (turnTest s w) st p := by
  have hne : s.turnId ≠ (w : Int) := by rw [h.turnId]; exact_mod_cast Ne.symm hw
  rw [turnTest_wait h.stop hne]
  refine ⟨h.toGranted.setWorker (by simp) (by simp) (by simp), h.turnId, h.sliceDone, h.sched,
    fun k slice hk => ?_, ?_⟩
  · rw [setWorker_worker]
    split
    · simp
    · exact h.others k slice hk
  · rw [setWorker_worker, if_neg (Ne.symm hw)]; exact h.worker

theorem Pending.take {p : Nat} (h : Pending inp s st p) : Pending inp (turnTest s p) st p := by
  obtain ⟨hp, hrem⟩ := h.toGranted.rem_pos
  have hrem' : s.sched.rem p = st.rem p := by rw [h.sched]
  obtain ⟨hg, hle, -⟩ := grantOf_bounds inp hrem
  rw [turnTest_work h.stop h.turnId (by rw [hrem']; exact hrem), hrem', h.grant,
    sliceOf_grant hg hle]
  refine ⟨h.toGranted.setWorker (by simp) (by simp) (by simp), h.turnId, h.sliceDone, h.sched,
    fun k slice hk => ?_, ?_⟩
  · rw [setWorker_worker, if_neg hk]; exact h.others k slice hk
  · rw [setWorker_worker, if_pos rfl]; exact .inr (.inr rfl)

theorem Pending.finish {p : Nat} (h : Pending inp s st p) (hm : s.main.target = some p) :
    Completed inp (endSlice s p (grantOf inp st p)) st p := by
  have hmain : s.main.woken = .lockDone p := by
    unfold MainPc.target at hm
    split at hm <;> simp_all [MainPc.woken]
  have hne : (-1 : Int) ≠ (p : Int) := by omega
  unfold endSlice
  rw [turnTest_wait (by exact h.stop) hne]
  refine ⟨⟨h.i_lt, ⟨h.started.allStarted, fun k => ?_, fun k hk => ?_, fun hs k => ?_⟩, h.stop,
    h.unfinished,
    h.picked, h.grant⟩, hmain, rfl, rfl, rfl, ?_, fun k slice => ?_⟩
  · rw [setWorker_worker]
    split
    · simp
    · exact h.started.awake k
  · rw [setWorker_worker]
    split
    · simp
    · exact h.started.born k hk
  · rw [setWorker_worker]
    split
    · simp
    · exact h.started.alive hs k
  · change serve s.sched p _ = _
    rw [h.sched]
  · rw [setWorker_worker]
    split
    · simp
    · rename_i hk; exact h.others k slice hk

theorem Completed.sleep {p : Nat} (h : Completed inp s st p) :
    Completed inp (turnTest s w) st p := by
  have hne : s.turnId ≠ (w : Int) := by rw [h.turnId]; omega
  rw [turnTest_wait h.stop hne]
  exact ⟨h.toGranted.setWorker (by simp) (by simp) (by simp), h.main, h.turnId, h.sliceDone,
    h.consumed, h.sched,
    h.idle.setWorker (by simp)⟩

theorem Stopping.leave (h : Stopping inp s st) : Stopping inp (turnTest s w) st := by
  rw [turnTest_stop h.stop]
  refine ⟨h.sched, h.finished, h.started.setWorker (by simp) (by simp) (by simp [h.stop]), h.stop,
    h.idle.setWorker (by simp), fun k => ?_⟩
  rw [setWorker_worker]
  split
  · simp
  · exact h.awake k

theorem Starting.sleep (h : Starting s st) : Starting (s.setWorker w .waitStart) st := by
  refine ⟨h.sched, h.allStarted, h.stop, h.turnId, fun k => ?_⟩
  rw [setWorker_worker]
  split
  · exact .inr (.inr rfl)
  · exact h.worker k

end

/-! ## Steps -/

section
variable {inp : Input} {s s' : Threads} {st : Sched} {w : Nat}

theorem pending_worker {p : Nat} (h : Pending inp s st p) (hm : s.main.target = some p)
    (hs : workerStep s w = some s') :
    (s'.main = s.main ∧ Pending inp s' st p) ∨ Completed inp s' st p := by
  obtain ⟨-, ⟨-, ha, -⟩ | ⟨-, rfl⟩ | ⟨slice, hw, rfl⟩⟩ := workerStep_cases hs
  · rw [h.started.allStarted] at ha; cases ha
  · by_cases hwp : w = p
    · subst hwp
      have hrem : 0 < s.sched.rem w := by rw [h.sched]; exact h.toGranted.rem_pos.2
      exact .inl ⟨turnTest_main (.inr (.inr hrem)), h.take⟩
    · have hne : s.turnId ≠ (w : Int) := by rw [h.turnId]; exact_mod_cast Ne.symm hwp
      exact .inl ⟨turnTest_main (.inr (.inl hne)), h.sleep hwp⟩
  · by_cases hwp : w = p
    · subst hwp
      have hslice : slice = grantOf inp st w := by
        rcases h.worker with h' | h' | h' <;> rw [hw] at h' <;> cases h'
        rfl
      rw [hslice]
      exact .inr (h.finish hm)
    · exact absurd hw (h.others w slice hwp)

theorem completed_worker {p : Nat} (h : Completed inp s st p) (hs : workerStep s w = some s') :
    Completed inp s' st p := by
  obtain ⟨-, ⟨-, ha, -⟩ | ⟨-, rfl⟩ | ⟨slice, hw, -⟩⟩ := workerStep_cases hs
  · rw [h.started.allStarted] at ha; cases ha
  · exact h.sleep
  · exact absurd hw (h.idle w slice)

theorem starting_worker (h : Starting s st) (hs : workerStep s w = some s') :
    s' = s.setWorker w .waitStart := by
  have hpc := h.worker w
  obtain ⟨-, ⟨-, -, rfl⟩ | ⟨⟨-, ha⟩ | hw, -⟩ | ⟨slice, hw, -⟩⟩ := workerStep_cases hs
  · rfl
  · rw [h.allStarted] at ha; cases ha
  · rw [hw] at hpc; simp at hpc
  · rw [hw] at hpc; simp at hpc

theorem stopping_worker (h : Stopping inp s st) (hs : workerStep s w = some s') :
    s'.main = s.main ∧ Stopping inp s' st := by
  obtain ⟨-, ⟨-, ha, -⟩ | ⟨-, rfl⟩ | ⟨slice, hw, -⟩⟩ := workerStep_cases hs
  · rw [h.started.allStarted] at ha; cases ha
  · exact ⟨turnTest_main (.inl h.stop), h.leave⟩
  · exact absurd hw (h.idle w slice)

theorem setWorker_ne_unborn {k : Nat} {pc : WorkerPc} (h : ∀ v < k, s.worker v ≠ .unborn)
    (hpc : pc ≠ .unborn) : ∀ v < k, (s.setWorker w pc).worker v ≠ .unborn := by
  intro v hv
  rw [setWorker_worker]
  split
  · exact hpc
  · exact h v hv

theorem rel_worker (h : Rel inp s st) (hs : workerStep s w = some s') : Rel inp s' st := by
  refine ⟨h.i_lt, ?_⟩
  have hR := h.at_main
  cases hm : s.main with
  | spawnLog t =>
    rw [hm] at hR
    rw [starting_worker hR hs, show (s.setWorker w .waitStart).main = s.main from rfl, hm]
    exact Starting.sleep hR
  | spawn k =>
    rw [hm] at hR
    rw [starting_worker hR.1 hs, show (s.setWorker w .waitStart).main = s.main from rfl, hm]
    exact ⟨hR.1.sleep, setWorker_ne_unborn hR.2 (by simp)⟩
  | lock =>
    rw [hm] at hR
    rw [starting_worker hR.1 hs, show (s.setWorker w .waitStart).main = s.main from rfl, hm]
    exact ⟨hR.1.sleep, setWorker_ne_unborn hR.2 (by simp)⟩
  | loop => exact absurd hm (workerStep_cases hs).1
  | waitDone p =>
    rw [hm] at hR
    rcases pending_worker hR (by rw [hm]; rfl) hs with ⟨he, hP⟩ | hC
    · rw [he, hm]; exact hP
    · rw [hC.main]; exact .inr hC
  | lockDone p =>
    rw [hm] at hR
    rcases hR with hP | hC
    · rcases pending_worker hP (by rw [hm]; rfl) hs with ⟨he, hP⟩ | hC
      · rw [he, hm]; exact .inl hP
      · rw [hC.main]; exact .inr hC
    · have := completed_worker hC hs
      rw [this.main]; exact .inr this
  | join t =>
    rw [hm] at hR
    obtain ⟨he, hS⟩ := stopping_worker hR hs
    rw [he, hm]; exact hS
  | joinLog t =>
    rw [hm] at hR
    obtain ⟨he, hS⟩ := stopping_worker hR hs
    rw [he, hm]; exact hS
  | finished =>
    rw [hm] at hR
    obtain ⟨he, hS⟩ := stopping_worker hR hs
    rw [he, hm]; exact hS

theorem loopBody_cases (inp : Input) (s : Threads) (hi : s.sched.i < inp.threads) :
    (s.sched.finished < inp.threads ∧
        search inp.threads (runnable inp s.sched) inp.threads s.sched.i = none ∧
        loopBody inp s = { s with sched := jump inp s.sched s.sched.i }) ∨
    (∃ p, s.sched.finished < inp.threads ∧
        search inp.threads (runnable inp s.sched) inp.threads s.sched.i = some p ∧
        loopBody inp s =
          { s with
            sched := { s.sched with i := p }
            turnId := p
            grant := grantOf inp s.sched p
            sliceDone := false
            main := .waitDone p }.broadcastTurn) ∨
    (¬ s.sched.finished < inp.threads ∧
        loopBody inp s = { s with stop := true, main := .join 0 }.broadcastTurn) := by
  unfold loopBody
  by_cases hf : s.sched.finished < inp.threads
  · rw [if_pos hf, pick_eq inp s.sched hi]
    cases hs : search inp.threads (runnable inp s.sched) inp.threads s.sched.i with
    | none => exact .inl ⟨hf, rfl, rfl⟩
    | some p => exact .inr (.inl ⟨p, hf, rfl, rfl⟩)
  · exact .inr (.inr ⟨hf, if_neg hf⟩)

theorem AtHead.grant {p : Nat} (h : AtHead inp s st) (hi : st.i < inp.threads)
    (hf : st.finished < inp.threads)
    (hp : search inp.threads (runnable inp st) inp.threads st.i = some p) :
    Pending inp
      { s with
        sched := { s.sched with i := p }
        turnId := p
        grant := grantOf inp s.sched p
        sliceDone := false
        main := .waitDone p }.broadcastTurn st p := by
  have hst : Started inp s.broadcastTurn := (wakes_all s).started h.started
  have hidle : Idle s.broadcastTurn := (wakes_all s).idle h.idle
  obtain ⟨hlt, -⟩ := search_some hi hp
  refine ⟨⟨hi, ⟨hst.allStarted, hst.awake, hst.born, hst.alive⟩, h.stop, hf, hp, ?_⟩, rfl, rfl, ?_,
    fun w slice _ => hidle w slice, ?_⟩
  · change grantOf inp s.sched p = _
    rw [h.sched]
  · change ({ s.sched with i := p } : Sched) = _
    rw [h.sched]
  · rw [broadcastTurn_worker]
    have h₁ := h.started.born p hlt
    have h₂ := h.started.alive h.stop p
    have h₃ := h.idle p
    have h₄ := h.started.awake p
    cases hw : s.worker p <;> simp_all [WorkerPc.woken]

/-- `main` has seen the report: the loop's variables are what the sequential
iteration computes. -/
theorem Completed.leave (advance : Int → Int → Int) {p : Nat} (h : Completed inp s st p) :
    ∃ e st', loopStep advance inp st e st' ∧
      st' = afterSlice advance inp s.sched p s.consumed ∧ st'.i < inp.threads := by
  have hpick := pick_eq inp st h.i_lt
  rw [h.picked] at hpick
  have hit : afterSlice advance inp s.sched p s.consumed =
      afterSlice advance inp (serve st p (grantOf inp st p)) p (grantOf inp st p) := by
    rw [h.sched, h.consumed]
    rfl
  refine ⟨_, _, ⟨h.unfinished, rfl⟩, ?_, ?_⟩
  · rw [hit, hpick]
  · rw [hpick]
    simp only [afterSlice]
    split <;> exact succ_mod_lt h.toGranted.rem_pos.1

theorem rel_loop (advance : Int → Int → Int) (h : AtHead inp s st) (hi : st.i < inp.threads)
    (hm : s.main = .loop) :
    Rel inp (loopBody inp s) st ∨
      ∃ e st', loopStep advance inp st e st' ∧ Rel inp (loopBody inp s) st' ∧
      (loopBody inp s).main = .loop := by
  have hsched := h.sched
  obtain ⟨hf, hs, he⟩ | ⟨p, hf, hs, he⟩ | ⟨hf, he⟩ :=
    loopBody_cases inp s (by rw [hsched]; exact hi)
  · right
    have hpick := pick_eq inp st hi
    rw [hsched] at hf hs
    rw [hs] at hpick
    refine ⟨_, jump inp st st.i, ⟨hf, by unfold iterate; rw [hpick]⟩, ?_⟩
    rw [he, hsched]
    refine ⟨⟨hi, ?_⟩, hm⟩
    simp only [hm]
    exact ⟨rfl, ⟨h.started.allStarted, h.started.awake, h.started.born, h.started.alive⟩, h.stop,
      h.turnId, h.idle⟩
  · rw [hsched] at hf hs
    rw [he]
    exact .inl ⟨hi, h.grant hi hf hs⟩
  · rw [hsched] at hf
    rw [he]
    have hst : Started inp s.broadcastTurn := (wakes_all s).started h.started
    have hidle : Idle s.broadcastTurn := (wakes_all s).idle h.idle
    refine .inl ⟨hi, hsched, hf, ⟨hst.allStarted, hst.awake, hst.born, fun hs => by cases hs⟩, rfl,
      hidle, fun w => ?_⟩
    rw [broadcastTurn_worker]
    exact woken_ne_waitTurn _

theorem Starting.release (h : Starting s st) (hb : ∀ w < inp.threads, s.worker w ≠ .unborn) :
    AtHead inp { s with allStarted := true, main := .loop }.broadcastTurn st := by
  have hw := h.worker
  refine ⟨h.sched, ⟨rfl, fun w => woken_ne_waitStart _, fun w hlt => woken_ne_unborn (hb w hlt),
    fun _ w => ?_⟩,
    h.stop, h.turnId, fun w slice => ?_⟩ <;> rw [broadcastTurn_worker] <;> simp only <;>
    rcases hw w with e | e | e <;> simp [e, WorkerPc.woken]

theorem Pending.withMain {p : Nat} (h : Pending inp s st p) (pc : MainPc) :
    Pending inp { s with main := pc } st p :=
  ⟨⟨h.i_lt, ⟨h.started.allStarted, h.started.awake, h.started.born, h.started.alive⟩, h.stop,
    h.unfinished,
    h.picked, h.grant⟩, h.turnId, h.sliceDone, h.sched, h.others, h.worker⟩

theorem Stopping.withMain (h : Stopping inp s st) (pc : MainPc) :
    Stopping inp { s with main := pc } st :=
  ⟨h.sched, h.finished, ⟨h.started.allStarted, h.started.awake, h.started.born, h.started.alive⟩,
    h.stop, h.idle, h.awake⟩

theorem rel_main (advance : Int → Int → Int) (h : Rel inp s st)
    (hs : mainStep advance inp s = some s') :
    Rel inp s' st ∨ ∃ e st', loopStep advance inp st e st' ∧ Rel inp s' st' ∧ s'.main = .loop := by
  have hi := h.i_lt
  have hR := h.at_main
  unfold mainStep at hs
  cases hm : s.main with
  | spawnLog t =>
    simp only [hm] at hs hR
    have hR : Starting s st := hR
    split at hs <;> cases hs
    · exact .inl ⟨hi, hR.sched, hR.allStarted, hR.stop, hR.turnId, hR.worker⟩
    · exact .inl ⟨hi, ⟨hR.sched, hR.allStarted, hR.stop, hR.turnId, hR.worker⟩,
        fun w hw => absurd hw (by omega)⟩
  | spawn k =>
    simp only [hm] at hs hR
    obtain ⟨hS, hb⟩ := hR
    split at hs <;> cases hs
    · refine .inl ⟨hi, ⟨hS.sched, hS.allStarted, hS.stop, hS.turnId, fun w => ?_⟩,
        fun w hw => ?_⟩ <;>
        simp only [setWorker_worker] <;> split
      · exact .inr (.inl rfl)
      · exact hS.worker w
      · simp
      · exact hb w (by omega)
    · refine .inl ⟨hi, ⟨hS.sched, hS.allStarted, hS.stop, hS.turnId, hS.worker⟩,
        fun w hw => hb w (by omega)⟩
  | lock =>
    simp only [hm] at hs hR
    cases hs
    exact .inl ⟨hi, hR.1.release hR.2⟩
  | loop =>
    simp only [hm] at hs hR
    cases hs
    exact rel_loop advance hR hi hm
  | waitDone p => simp only [hm] at hs; cases hs
  | lockDone p =>
    simp only [hm] at hs hR
    rcases hR with hP | hC
    · rw [if_neg (by simp [hP.sliceDone])] at hs
      cases hs
      exact .inl ⟨hi, hP.withMain _⟩
    · simp only [hC.sliceDone, ite_true] at hs
      cases hs
      obtain ⟨e, st', hstep, rfl, hi'⟩ := hC.leave advance
      exact .inr ⟨e, _, hstep, ⟨hi', rfl, ⟨hC.started.allStarted, hC.started.awake, hC.started.born,
        hC.started.alive⟩, hC.stop, hC.turnId, hC.idle⟩, rfl⟩
  | join t =>
    simp only [hm] at hs hR
    have hR : Stopping inp s st := hR
    split at hs
    · split at hs <;> cases hs
      exact .inl ⟨hi, hR.withMain _⟩
    · cases hs; exact .inl ⟨hi, hR.withMain _⟩
  | joinLog t =>
    simp only [hm] at hs hR
    have hR : Stopping inp s st := hR
    split at hs
    · split at hs <;> cases hs
      exact .inl ⟨hi, hR.withMain _⟩
    · cases hs; exact .inl ⟨hi, hR.withMain _⟩
  | finished => simp only [hm] at hs; cases hs

theorem signalDone_eq (h : ∀ p, s.main ≠ .waitDone p) : s.signalDone = s := by
  have : s.main.woken = s.main := by
    unfold MainPc.woken
    split
    · rename_i hm; exact absurd hm (h _)
    · rfl
  unfold Threads.signalDone
  rw [this]

theorem rel_wakeMain (h : Rel inp s st) : Rel inp s.signalDone st := by
  by_cases hw : ∃ p, s.main = .waitDone p
  · obtain ⟨p, hm⟩ := hw
    have hR := h.at_main
    rw [hm] at hR
    refine ⟨h.i_lt, ?_⟩
    rw [show s.signalDone.main = .lockDone p by simp [Threads.signalDone, hm, MainPc.woken]]
    exact .inl (Pending.withMain hR _)
  · rw [signalDone_eq fun p hm => hw ⟨p, hm⟩]; exact h

theorem rel_step (advance : Int → Int → Int) {a : Act} (h : Rel inp s st)
    (hs : step advance inp s a = some s') :
    Rel inp s' st ∨ ∃ e st', loopStep advance inp st e st' ∧ Rel inp s' st' ∧ s'.main = .loop := by
  cases a with
  | main => exact rel_main advance h hs
  | worker w => exact .inl (rel_worker h hs)
  | log t =>
    simp only [step] at hs
    split at hs <;> cases hs
    exact .inl ((wakes_none s).rel h)
  | wakeMain => cases hs; exact .inl (rel_wakeMain h)
  | wakeWorker w => cases hs; exact .inl ((wakes_one s w).rel h)

end

/-! ## Logging threads -/

def MainPc.logs : MainPc → Nat
  | .spawnLog t => t
  | _ => maxThreadsLog

def LogsBorn (s : Threads) : Prop := ∀ t < s.main.logs, s.log t ≠ .unborn

section
variable {inp : Input} {s s' : Threads}

theorem logs_woken (pc : MainPc) : pc.woken.logs = pc.logs := by cases pc <;> rfl

theorem target_woken (pc : MainPc) : pc.woken.target = pc.target := by cases pc <;> rfl

theorem workerStep_frame {w : Nat} (h : workerStep s w = some s') :
    s'.log = s.log ∧ (s'.main = s.main ∨ s'.main = s.main.woken) := by
  have key : ∀ t : Threads, (turnTest t w).log = t.log ∧
      ((turnTest t w).main = t.main ∨ (turnTest t w).main = t.main.woken) := by
    intro t
    unfold turnTest
    split_ifs <;> simp [Threads.setWorker, Threads.report, Threads.signalDone]
  obtain ⟨-, ⟨-, -, rfl⟩ | ⟨-, rfl⟩ | ⟨slice, -, rfl⟩⟩ := workerStep_cases h
  · exact ⟨rfl, .inl rfl⟩
  · exact key s
  · obtain ⟨h₁, h₂⟩ := key ({ s with sched := serve s.sched w slice }.report slice)
    refine ⟨h₁, .inr ?_⟩
    have hww : s.main.woken.woken = s.main.woken := by cases s.main <;> rfl
    rcases h₂ with h₂ | h₂
    · exact h₂
    · exact h₂.trans hww

theorem logsBorn_main (advance : Int → Int → Int) (h : LogsBorn s)
    (hs : mainStep advance inp s = some s') :
    LogsBorn s' := by
  -- only `spawnLog` touches the logging threads
  have keep : s'.log = s.log → s'.main.logs ≤ s.main.logs → LogsBorn s' := fun h₁ h₂ t ht =>
    h₁ ▸ h t (by omega)
  unfold mainStep at hs
  cases hm : s.main with
  | spawnLog t =>
    simp only [hm] at hs
    split at hs <;> cases hs
    · rename_i ht
      intro u hu
      simp only [MainPc.logs, Function.update_apply] at hu ⊢
      split
      · simp
      · exact h u (by rw [hm]; simp only [MainPc.logs]; omega)
    · rename_i ht
      exact keep rfl (by rw [hm]; simp only [MainPc.logs]; omega)
  | loop =>
    simp only [hm, Option.some.injEq] at hs
    subst hs
    refine keep ?_ ?_
    · unfold loopBody
      split
      · split <;> rfl
      · rfl
    · rw [hm]
      unfold loopBody
      split
      · split
        · simp [hm]
        · exact le_refl _
      · exact le_refl _
  | _ =>
    simp only [hm] at hs
    (repeat' split at hs) <;> first
      | (cases hs; exact keep rfl (by rw [hm]; exact le_refl _))
      | cases hs

theorem logsBorn_step (advance : Int → Int → Int) {a : Act} (h : LogsBorn s)
    (hs : step advance inp s a = some s') : LogsBorn s' := by
  cases a with
  | main => exact logsBorn_main advance h hs
  | worker w =>
    obtain ⟨h₁, h₂⟩ := workerStep_frame hs
    have : s'.main.logs = s.main.logs := by
      rcases h₂ with h₂ | h₂ <;> rw [h₂]
      exact logs_woken _
    exact fun t ht => h₁ ▸ h t (this ▸ ht)
  | log t =>
    simp only [step] at hs
    split at hs <;> cases hs
    intro u hu
    simp only [Function.update_apply]
    split
    · simp
    · exact h u hu
  | wakeMain =>
    cases hs
    exact fun t ht => h t (by simpa [Threads.signalDone, logs_woken] using ht)
  | wakeWorker w => cases hs; exact h

end

/-! ## Progress -/

section
variable {inp : Input} {s : Threads} {st : Sched}

theorem workerStep_enabled {w : Nat} (hm : s.main ≠ .loop)
    (hw : s.worker w = .lockStart ∨ s.worker w = .lockTurn ∨ ∃ slice, s.worker w = .working slice) :
    ∃ s', workerStep s w = some s' := by
  unfold workerStep
  rw [if_neg hm]
  rcases hw with hw | hw | ⟨slice, hw⟩ <;> rw [hw] <;> exact ⟨_, rfl⟩

theorem rel_progress (advance : Int → Int → Int) (h : Rel inp s st) (hlog : LogsBorn s)
    (hfin : s.main ≠ .finished) : ∃ a s', a.spurious = false ∧ step advance inp s a = some s' := by
  have hR := h.at_main
  cases hm : s.main with
  | spawnLog t =>
    refine ⟨.main, ?_⟩
    simp only [Act.spurious, step, mainStep, hm, true_and]
    split <;> exact ⟨_, rfl⟩
  | spawn k =>
    refine ⟨.main, ?_⟩
    simp only [Act.spurious, step, mainStep, hm, true_and]
    split <;> exact ⟨_, rfl⟩
  | lock => exact ⟨.main, _, rfl, by simp only [step, mainStep, hm]; rfl⟩
  | loop => exact ⟨.main, _, rfl, by simp only [step, mainStep, hm]; rfl⟩
  | waitDone p =>
    rw [hm] at hR
    have hw : s.worker p = .lockStart ∨ s.worker p = .lockTurn ∨ ∃ slice,
        s.worker p = .working slice := by
      rcases hR.worker with hw | hw | hw
      · exact .inl hw
      · exact .inr (.inl hw)
      · exact .inr (.inr ⟨_, hw⟩)
    obtain ⟨s', hs'⟩ := workerStep_enabled (by rw [hm]; simp) hw
    exact ⟨.worker p, s', rfl, hs'⟩
  | lockDone p =>
    refine ⟨.main, ?_⟩
    simp only [Act.spurious, step, mainStep, hm, true_and]
    split <;> exact ⟨_, rfl⟩
  | join t =>
    rw [hm] at hR
    have hR : Stopping inp s st := hR
    by_cases ht : t < inp.threads
    · by_cases hd : s.worker t = .done
      · exact ⟨.main, _, rfl, by simp only [step, mainStep, hm, ht, hd, ite_true]; rfl⟩
      · have hw : s.worker t = .lockStart ∨ s.worker t = .lockTurn ∨ ∃ slice,
            s.worker t = .working slice := by
          have h₁ := hR.started.born t ht
          have h₂ := hR.started.awake t
          have h₃ := hR.awake t
          cases hpc : s.worker t <;> simp_all
        obtain ⟨s', hs'⟩ := workerStep_enabled (by rw [hm]; simp) hw
        exact ⟨.worker t, s', rfl, hs'⟩
    · exact ⟨.main, _, rfl, by simp only [step, mainStep, hm, ht, ite_false]; rfl⟩
  | joinLog t =>
    by_cases ht : t < maxThreadsLog
    · have hb := hlog t (by rw [hm]; exact ht)
      cases hl : s.log t with
      | unborn => exact absurd hl hb
      | running => exact ⟨.log t, _, rfl, by simp only [step, hl, ite_true]; rfl⟩
      | done => exact ⟨.main, _, rfl, by simp only [step, mainStep, hm, ht, hl, ite_true]; rfl⟩
    · exact ⟨.main, _, rfl, by simp only [step, mainStep, hm, ht, ite_false]; rfl⟩
  | finished => exact absurd hm hfin

end

/-! ## The pending grant -/

structure GrantedAt (advance : Int → Int → Int) (inp : Input) (p : Nat) (s₀ s : Threads) :
    Prop where
  loop : s₀.main = .loop
  wait : ∃ s₁ acts, Interleave advance inp s₀ .main s₁ ∧ s₁.main = .waitDone p ∧
    Run (fun t a t' => Interleave advance inp t a t' ∧ t'.main.target = some p) s₁ acts s

section
variable {advance : Int → Int → Int} {inp : Input} {s s' : Threads} {st : Sched} {p : Nat}

theorem target_step {a : Act} (hs : step advance inp s a = some s') (ht : s'.main.target = some p) :
    s.main.target = some p ∨ a = .main ∧ s.main = .loop ∧ s'.main = .waitDone p := by
  cases a with
  | main =>
    simp only [step, mainStep] at hs
    cases hm : s.main with
    | loop =>
      simp only [hm, Option.some.injEq] at hs
      subst hs
      refine .inr ⟨rfl, rfl, ?_⟩
      revert ht
      unfold loopBody
      split
      · split
        · simp [hm, MainPc.target]
        · simp [Threads.broadcastTurn, MainPc.target]
      · simp [Threads.broadcastTurn, MainPc.target]
    | _ =>
      simp only [hm] at hs
      (repeat' split at hs) <;> first
        | (cases hs; first | exact .inl ht | cases ht)
        | cases hs
  | worker w =>
    obtain ⟨-, h | h⟩ := workerStep_frame hs
    · exact .inl (h ▸ ht)
    · rw [h, target_woken] at ht; exact .inl ht
  | log t =>
    simp only [step] at hs
    split at hs <;> cases hs
    exact .inl ht
  | wakeMain =>
    cases hs
    rw [Threads.signalDone, target_woken] at ht
    exact .inl ht
  | wakeWorker w => cases hs; exact .inl ht

/-- What a run up to `s` has done: the sequential loop has come to `st`, and the
slice `main` waits for, if any, was granted there. -/
structure Hist (advance : Int → Int → Int) (inp : Input) (s : Threads) (st : Sched) : Prop where
  seq : ∃ es, Run (loopStep advance inp) (Sched.init inp) es st
  rel : Rel inp s st
  logs : LogsBorn s
  grant : ∀ p, s.main.target = some p →
    ∃ acts s₀, Run (Interleave advance inp) (Threads.init inp) acts s₀ ∧
    GrantedAt advance inp p s₀ s ∧ s₀.sched = st

theorem hist_init (advance : Int → Int → Int) (inp : Input) :
    Hist advance inp (Threads.init inp) (Sched.init inp) :=
  ⟨⟨[], .nil⟩, rel_init inp, fun t ht => absurd ht (by simp [Threads.init, MainPc.logs]),
    fun p hp => by cases hp⟩

theorem hist_step {acts : List Act} {a : Act}
    (hr : Run (Interleave advance inp) (Threads.init inp) acts s) (h : Hist advance inp s st)
    (hs : Interleave advance inp s a s') :
    ∃ st', Hist advance inp s' st' := by
  have hlogs := logsBorn_step advance h.logs hs
  rcases rel_step advance h.rel hs with hrel | ⟨e, st', hl, hrel, hm⟩
  · refine ⟨st, h.seq, hrel, hlogs, fun p hp => ?_⟩
    rcases target_step hs hp with ht | ⟨rfl, hloop, hwait⟩
    · obtain ⟨acts₁, s₀, hr₀, ⟨hl, s₁, acts₂, h₁, hw, hr₂⟩, he⟩ := h.grant p ht
      exact ⟨acts₁, s₀, hr₀, ⟨hl, s₁, _, h₁, hw, hr₂.snoc ⟨hs, hp⟩⟩, he⟩
    · have hR := h.rel.at_main
      rw [hloop] at hR
      exact ⟨acts, s, hr, ⟨hloop, s', [], hs, hwait, .nil⟩, hR.sched⟩
  · obtain ⟨es, hes⟩ := h.seq
    exact ⟨st', ⟨_, hes.snoc hl⟩, hrel, hlogs, fun p hp => by rw [hm] at hp; cases hp⟩

theorem hist_run {acts : List Act} (hr : Run (Interleave advance inp) (Threads.init inp) acts s) :
    ∃ st, Hist advance inp s st := by
  induction hr with
  | nil => exact ⟨_, hist_init advance inp⟩
  | snoc hr hs ih =>
    obtain ⟨st, h⟩ := ih
    exact hist_step hr h hs

/-! ## Refinement -/

/-- The condition under which `rr_thread` takes the branch for a thread that
should not have been scheduled. -/
def Unscheduled (s : Threads) (w : Nat) : Prop := s.stop = false ∧ s.turnId = w ∧ s.sched.rem w ≤ 0

/-- The handshake in a state `s` of the threads. -/
structure Refines (advance : Int → Int → Int) (inp : Input) (s : Threads) : Prop where
  -- Only the thread `main` waits for can be in its slice.
  one_slice : ∀ w slice, s.worker w = .working slice → s.main.target = some w
  -- The worker's branch for `rem <= 0` is not taken, at whichever turn test.
  scheduled : ∀ w, ¬ Unscheduled s w ∧
    ∀ slice, s.worker w = .working slice →
    ¬ Unscheduled ({ s with sched := serve s.sched w slice }.report slice) w
  -- A sleeper sleeps only while its condition is false.
  awake : (∀ w, s.worker w = .waitStart → s.allStarted = false) ∧
    (∀ w, s.worker w = .waitTurn → s.stop = false ∧ s.turnId ≠ w) ∧
    ∀ p, s.main = .waitDone p → s.sliceDone = false
  progress : s.main ≠ .finished → ∃ a s', a.spurious = false ∧ Interleave advance inp s a s'
  -- When `main` leaves its wait the picked thread has used up its grant.
  slice : ∀ p, s.main = .lockDone p → s.sliceDone = true →
    ∃ acts s₀, Run (Interleave advance inp) (Threads.init inp) acts s₀ ∧
    GrantedAt advance inp p s₀ s ∧
      s.consumed = min inp.q (s₀.sched.rem p) ∧
      s.sched.rem p = s₀.sched.rem p - s.consumed ∧ ∀ k, k ≠ p → s.sched.rem k = s₀.sched.rem k
  -- The result is the sequential loop's.
  result : s.main = .finished → ∃ es st, Run (loopStep advance inp) (Sched.init inp) es st ∧
    ¬ st.finished < inp.threads ∧ s.sched.finish = st.finish

theorem Rel.one_slice (h : Rel inp s st) {w : Nat} {slice : Int}
    (hw : s.worker w = .working slice) :
    s.main.target = some w := by
  have hR := h.at_main
  have hstarting : ¬ Starting s st := fun hS => by
    rcases hS.worker w with e | e | e <;> simp [e] at hw
  have hpending : ∀ p, Pending inp s st p → p = w := fun p hP => by
    by_contra hne
    exact hP.others w slice (Ne.symm hne) hw
  cases hm : s.main <;> rw [hm] at hR
  case spawnLog => exact absurd hR hstarting
  case spawn => exact absurd hR.1 hstarting
  case lock => exact absurd hR.1 hstarting
  case loop => exact absurd hw (hR.idle w slice)
  case waitDone p => rw [← hpending p hR]; rfl
  case lockDone p =>
    rcases hR with hP | hC
    · rw [← hpending p hP]; rfl
    · exact absurd hw (hC.idle w slice)
  all_goals exact absurd hw (Stopping.idle hR w slice)

theorem Rel.scheduled (h : Rel inp s st) (w : Nat) : ¬ Unscheduled s w := by
  rintro ⟨hstop, hturn, hrem⟩
  have hR := h.at_main
  have hnobody : s.turnId ≠ -1 := by omega
  have hpending : ∀ p, ¬ Pending inp s st p := fun p hP => by
    have hpos := hP.toGranted.rem_pos.2
    have hp : p = w := by have := hP.turnId; omega
    rw [hP.sched, ← hp] at hrem
    exact absurd hpos (not_lt.mpr hrem)
  cases hm : s.main <;> rw [hm] at hR
  case spawnLog => exact hnobody (Starting.turnId hR)
  case spawn => exact hnobody hR.1.turnId
  case lock => exact hnobody hR.1.turnId
  case loop => exact hnobody hR.turnId
  case waitDone p => exact hpending p hR
  case lockDone p => exact hR.elim (hpending p) fun hC => hnobody hC.turnId
  all_goals simp [Stopping.stop hR] at hstop

theorem Rel.waitStart (h : Rel inp s st) {w : Nat} (hw : s.worker w = .waitStart) :
    s.allStarted = false := by
  have hR := h.at_main
  have hstarted : ¬ Started inp s := fun hS => hS.awake w hw
  cases hm : s.main <;> rw [hm] at hR
  case spawnLog => exact Starting.allStarted hR
  case spawn => exact hR.1.allStarted
  case lock => exact hR.1.allStarted
  case loop => exact absurd hR.started hstarted
  case waitDone p => exact absurd hR.started hstarted
  case lockDone p =>
    exact hR.elim (fun hP => absurd hP.started hstarted) fun hC => absurd hC.started hstarted
  all_goals exact absurd (Stopping.started hR) hstarted

theorem Rel.waitTurn (h : Rel inp s st) {w : Nat} (hw : s.worker w = .waitTurn) :
    s.stop = false ∧ s.turnId ≠ w := by
  have hR := h.at_main
  have hstarting : ¬ Starting s st := fun hS => by
    rcases hS.worker w with e | e | e <;> simp [e] at hw
  have hpending : ∀ p, Pending inp s st p → s.stop = false ∧ s.turnId ≠ w := fun p hP => by
    refine ⟨hP.stop, fun he => ?_⟩
    have hp : p = w := by have := hP.turnId; omega
    subst hp
    rcases hP.worker with e | e | e <;> simp [e] at hw
  cases hm : s.main <;> rw [hm] at hR
  case spawnLog => exact absurd hR hstarting
  case spawn => exact absurd hR.1 hstarting
  case lock => exact absurd hR.1 hstarting
  case loop => exact ⟨hR.stop, by rw [hR.turnId]; omega⟩
  case waitDone p => exact hpending p hR
  case lockDone p => exact hR.elim (hpending p) fun hC => ⟨hC.stop, by rw [hC.turnId]; omega⟩
  all_goals exact absurd hw (Stopping.awake hR w)

theorem Rel.waitDone (h : Rel inp s st) (hm : s.main = .waitDone p) : s.sliceDone = false := by
  have hR := h.at_main
  rw [hm] at hR
  exact hR.sliceDone

theorem Rel.slice (h : Rel inp s st) (hm : s.main = .lockDone p) (hd : s.sliceDone = true) :
    s.consumed = min inp.q (st.rem p) ∧ s.sched.rem p = st.rem p - s.consumed ∧
      ∀ k, k ≠ p → s.sched.rem k = st.rem k := by
  have hR := h.at_main
  rw [hm] at hR
  rcases hR with hP | hC
  · simp [hP.sliceDone] at hd
  · refine ⟨by rw [hC.consumed, grantOf_eq_min], ?_, fun k hk => ?_⟩
    · rw [hC.sched, hC.consumed, serve_rem, if_pos rfl]
    · rw [hC.sched, serve_rem, if_neg hk]

/-- Every interleaving of the scheduler with its workers does what the sequential
loop does. -/
theorem threads_refine_loop (advance : Int → Int → Int) (inp : Input) {acts : List Act}
    {s : Threads} (hr : Run (Interleave advance inp) (Threads.init inp) acts s) :
    Refines advance inp s := by
  obtain ⟨st, h⟩ := hist_run hr
  refine ⟨fun w slice hw => h.rel.one_slice hw, fun w => ⟨h.rel.scheduled w, fun slice _ hU => ?_⟩,
    ⟨fun w hw => h.rel.waitStart hw, fun w hw => h.rel.waitTurn hw, fun p hm => h.rel.waitDone hm⟩,
    fun hfin => rel_progress advance h.rel h.logs hfin, fun p hm hd => ?_, fun hm => ?_⟩
  · -- the worker itself has just given the turn back
    have hturn : (-1 : Int) = w := hU.2.1
    omega
  · obtain ⟨acts₀, s₀, hr₀, hg, rfl⟩ := h.grant p (by rw [hm]; rfl)
    exact ⟨acts₀, s₀, hr₀, hg, h.rel.slice hm hd⟩
  · obtain ⟨es, hes⟩ := h.seq
    have hR := h.rel.at_main
    rw [hm] at hR
    exact ⟨es, st, hes, Stopping.finished hR, by rw [Stopping.sched hR]⟩

end

def oneThread : Input where
  times := [(0, 3)]
  q := 2
  threads_pos := by decide
  threads_le := by decide
  bt_pos := by decide
  q_pos := by decide

def firstSlice : List Act :=
  List.replicate 7 .main ++ [.worker 0, .main, .main, .worker 0, .worker 0]

theorem threads_refine_loop_firstSlice :
    ∃ s, firstSlice.foldlM (step (· + ·) oneThread) (Threads.init oneThread) = some s ∧
      s.main = .lockDone 0 ∧ s.sliceDone = true ∧ Refines (· + ·) oneThread s := by
  have h : (firstSlice.foldlM (step (· + ·) oneThread) (Threads.init oneThread)).any
      (fun s => decide (s.main = .lockDone 0) && s.sliceDone) = true := by decide
  obtain ⟨s, hs, hp⟩ := (Option.any_eq_true ..).mp h
  simp only [Bool.and_eq_true, decide_eq_true_eq] at hp
  exact ⟨s, hs, hp.1, hp.2, threads_refine_loop _ _ (Run.of_foldlM hs)⟩

end Csc412.RoundRobin
