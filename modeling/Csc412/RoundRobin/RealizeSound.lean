import Csc412.RoundRobin.ThreadsSound

/-!
# The threads realize the sequential loop

The converse of the refinement: for every run of the loop there is an interleaving
that brings the threads to the head of the loop with the same variables
(`realize_run`), and from the last of these `main` can be brought to its end
(`realize_exit`). Nothing is assumed of the clock's addition.
-/

namespace Csc412.RoundRobin

open Lib

def Reached (advance : Int → Int → Int) (inp : Input) (s : Threads) : Prop :=
  ∃ acts, Run (Interleave advance inp) (Threads.init inp) acts s

section
variable {advance : Int → Int → Int} {inp : Input} {s s' : Threads} {st st' : Sched} {p : Nat}

theorem Reached.after (h : Reached advance inp s) (a : Act) (hs : step advance inp s a = some s') :
    Reached advance inp s' := by
  obtain ⟨acts, hr⟩ := h
  exact ⟨acts ++ [a], hr.snoc hs⟩

theorem Reached.head (h : Reached advance inp s) (hm : s.main = .loop) :
    AtHead inp s s.sched ∧ s.sched.i < inp.threads := by
  obtain ⟨acts, hr⟩ := h
  obtain ⟨st, hH⟩ := hist_run hr
  have hR := hH.rel.at_main
  rw [hm] at hR
  have hst : s.sched = st := hR.sched
  rw [hst]
  exact ⟨hR, hH.rel.i_lt⟩

theorem Reached.logs (h : Reached advance inp s) : LogsBorn s := by
  obtain ⟨acts, hr⟩ := h
  obtain ⟨st, hH⟩ := hist_run hr
  exact hH.logs

theorem Reached.stopping (h : Reached advance inp s) {t : Nat} (hm : s.main = .join t) :
    Stopping inp s s.sched := by
  obtain ⟨acts, hr⟩ := h
  obtain ⟨st, hH⟩ := hist_run hr
  have hR := hH.rel.at_main
  rw [hm] at hR
  have hst : s.sched = st := Stopping.sched hR
  rw [hst]
  exact hR

/-! ## Up to the loop -/

theorem Reached.spawnLogs (h : Reached advance inp s) :
    ∀ k t, s.main = .spawnLog t → t + k = maxThreadsLog →
    ∃ s', Reached advance inp s' ∧ s'.main = .spawn 0 ∧ s'.sched = s.sched := by
  intro k
  induction k generalizing s with
  | zero =>
    intro t hm ht
    have hs : step advance inp s .main = some { s with main := .spawn 0 } := by
      simp only [step, mainStep, hm]
      rw [if_neg (by omega)]
    exact ⟨_, h.after .main hs, rfl, rfl⟩
  | succ k ih =>
    intro t hm ht
    have hs : step advance inp s .main =
        some { s with log := Function.update s.log t .running, main := .spawnLog (t + 1) } := by
      simp only [step, mainStep, hm]
      rw [if_pos (by omega)]
    obtain ⟨s', h', hm', hst'⟩ := ih (h.after .main hs) (t + 1) rfl (by omega)
    exact ⟨s', h', hm', hst'⟩

theorem Reached.spawns (h : Reached advance inp s) :
    ∀ k t, s.main = .spawn t → t + k = inp.threads →
    ∃ s', Reached advance inp s' ∧ s'.main = .lock ∧ s'.sched = s.sched := by
  intro k
  induction k generalizing s with
  | zero =>
    intro t hm ht
    have hs : step advance inp s .main = some { s with main := .lock } := by
      simp only [step, mainStep, hm]
      rw [if_neg (by omega)]
    exact ⟨_, h.after .main hs, rfl, rfl⟩
  | succ k ih =>
    intro t hm ht
    have hs : step advance inp s .main =
        some { s.setWorker t .lockStart with main := .spawn (t + 1) } := by
      simp only [step, mainStep, hm]
      rw [if_pos (by omega)]
    obtain ⟨s', h', hm', hst'⟩ := ih (h.after .main hs) (t + 1) rfl (by omega)
    exact ⟨s', h', hm', hst'⟩

theorem reached_loop (advance : Int → Int → Int) (inp : Input) :
    ∃ s, Reached advance inp s ∧ s.main = .loop ∧ s.sched = Sched.init inp := by
  have hinit : Reached advance inp (Threads.init inp) := ⟨[], .nil⟩
  obtain ⟨s₁, h₁, hm₁, hst₁⟩ := hinit.spawnLogs maxThreadsLog 0 rfl (Nat.zero_add _)
  obtain ⟨s₂, h₂, hm₂, hst₂⟩ := h₁.spawns inp.threads 0 hm₁ (Nat.zero_add _)
  have hs : step advance inp s₂ .main =
      some { s₂ with allStarted := true, main := .loop }.broadcastTurn := by
    simp only [step, mainStep, hm₂]
  exact ⟨_, h₂.after .main hs, rfl, hst₂.trans hst₁⟩

/-! ## One iteration -/

theorem target_ne_loop (hm : s.main.target = some p) : s.main ≠ .loop := by
  intro hl
  rw [hl] at hm
  cases hm

theorem Reached.finishSlice (h : Reached advance inp s) (hP : Pending inp s st p)
    (hm : s.main.target = some p) (hw : s.worker p = .working (grantOf inp st p)) :
    ∃ s', Reached advance inp s' ∧ Completed inp s' st p := by
  have hs : step advance inp s (.worker p) = some (endSlice s p (grantOf inp st p)) := by
    simp only [step, workerStep, hw]
    rw [if_neg (target_ne_loop hm)]
  exact ⟨_, h.after (.worker p) hs, hP.finish hm⟩

theorem Reached.takeSlice (h : Reached advance inp s) (hP : Pending inp s st p)
    (hm : s.main.target = some p) (hw : s.worker p = .lockStart ∨ s.worker p = .lockTurn) :
    ∃ s', Reached advance inp s' ∧ Completed inp s' st p := by
  obtain ⟨hp, hrem⟩ := hP.toGranted.rem_pos
  obtain ⟨hg, hle, -⟩ := grantOf_bounds inp hrem
  have hrem' : s.sched.rem p = st.rem p := by rw [hP.sched]
  have hpos : 0 < s.sched.rem p := by rw [hrem']; exact hrem
  have hs : step advance inp s (.worker p) = some (turnTest s p) := by
    simp only [step, workerStep]
    rw [if_neg (target_ne_loop hm)]
    rcases hw with hw | hw
    · rw [hw, hP.started.allStarted]
      rfl
    · rw [hw]
  have hmain : (turnTest s p).main = s.main := turnTest_main (.inr (.inr hpos))
  refine (h.after (.worker p) hs).finishSlice hP.take (by rw [hmain]; exact hm) ?_
  rw [turnTest_work hP.stop hP.turnId hpos, hrem', hP.grant, sliceOf_grant hg hle, setWorker_worker,
    if_pos rfl]

theorem Reached.slice (h : Reached advance inp s) (hP : Pending inp s st p)
    (hm : s.main.target = some p) :
    ∃ s', Reached advance inp s' ∧ Completed inp s' st p := by
  rcases hP.worker with hw | hw | hw
  · exact h.takeSlice hP hm (.inl hw)
  · exact h.takeSlice hP hm (.inr hw)
  · exact h.finishSlice hP hm hw

theorem Reached.granted (h : Reached advance inp s) (hm : s.main = .loop)
    (hf : s.sched.finished < inp.threads)
    (hp : search inp.threads (runnable inp s.sched) inp.threads s.sched.i = some p) :
    ∃ s', Reached advance inp s' ∧ Completed inp s' s.sched p := by
  obtain ⟨hA, hi⟩ := h.head hm
  have hstep : step advance inp s .main = some (loopBody inp s) := by simp only [step, mainStep, hm]
  obtain ⟨-, hs, -⟩ | ⟨q, -, hs, he⟩ | ⟨hf', -⟩ := loopBody_cases inp s hi
  · rw [hp] at hs
    cases hs
  · rw [hp] at hs
    cases hs
    have hgrant := hA.grant hi hf hp
    rw [← he] at hgrant
    refine (h.after .main hstep).slice hgrant ?_
    rw [he]
    rfl
  · exact absurd hf hf'

theorem Reached.iteration (h : Reached advance inp s) (hm : s.main = .loop) {e : Event}
    (hl : loopStep advance inp s.sched e st') :
    ∃ s', Reached advance inp s' ∧ s'.main = .loop ∧ s'.sched = st' := by
  obtain ⟨hA, hi⟩ := h.head hm
  have hf := hl.1
  obtain ⟨p, hp, -, rfl⟩ | ⟨hn, -, rfl⟩ := loopStep_cases hi hl
  · obtain ⟨s₁, h₁, hC⟩ := h.granted hm hf hp
    have hs : step advance inp s₁ .main =
        some { s₁ with sched := afterSlice advance inp s₁.sched p s₁.consumed, main := .loop } := by
      simp only [step, mainStep, hC.main, hC.sliceDone, ite_true]
    refine ⟨_, h₁.after .main hs, rfl, ?_⟩
    rw [hC.consumed, hC.sched]
    rfl
  · refine ⟨loopBody inp s, h.after .main (by simp only [step, mainStep, hm]), ?_⟩
    obtain ⟨-, -, he⟩ | ⟨q, -, hs, -⟩ | ⟨hf', -⟩ := loopBody_cases inp s hi
    · rw [he]
      exact ⟨hm, rfl⟩
    · rw [hn] at hs
      cases hs
    · exact absurd hf hf'

/-- Every run of the sequential loop is a run of the threads. -/
theorem realize_run {es : List Event} (h : Run (loopStep advance inp) (Sched.init inp) es st) :
    ∃ s, Reached advance inp s ∧ s.main = .loop ∧ s.sched = st := by
  induction h with
  | nil => exact reached_loop advance inp
  | snoc _ hs ih =>
    obtain ⟨s, hr, hm, rfl⟩ := ih
    exact hr.iteration hm hs

/-! ## After the loop -/

theorem Stopping.dismiss (h : Stopping inp s st) (hm : s.main ≠ .loop) {w : Nat}
    (hw : w < inp.threads) (hd : s.worker w ≠ .done) :
    step advance inp s (.worker w) = some (s.setWorker w .done) := by
  have hborn := h.started.born w hw
  have hawake := h.started.awake w
  have hturn := h.awake w
  have hidle := h.idle w
  simp only [step, workerStep]
  rw [if_neg hm]
  cases hpc : s.worker w with
  | lockStart => simp only [h.started.allStarted, ite_true, turnTest_stop h.stop]
  | lockTurn => simp only [turnTest_stop h.stop]
  | unborn => exact absurd hpc hborn
  | waitStart => exact absurd hpc hawake
  | waitTurn => exact absurd hpc hturn
  | working slice => exact absurd hpc (hidle slice)
  | done => exact absurd hpc hd

theorem Reached.join (h : Reached advance inp s) : ∀ k t, s.main = .join t → t + k = inp.threads →
    ∃ s', Reached advance inp s' ∧ s'.main = .joinLog 0 ∧ s'.sched = s.sched := by
  intro k
  induction k generalizing s with
  | zero =>
    intro t hm ht
    have hs : step advance inp s .main = some { s with main := .joinLog 0 } := by
      simp only [step, mainStep, hm]
      rw [if_neg (by omega)]
    exact ⟨_, h.after .main hs, rfl, rfl⟩
  | succ k ih =>
    intro t hm ht
    have hjoin : ∀ {u : Threads}, Reached advance inp u → u.main = .join t → u.worker t = .done →
        ∃ s', Reached advance inp s' ∧ s'.main = .joinLog 0 ∧ s'.sched = u.sched := by
      intro u hu hmu hd
      have hs : step advance inp u .main = some { u with main := .join (t + 1) } := by
        simp only [step, mainStep, hmu]
        rw [if_pos (by omega), if_pos hd]
      obtain ⟨s', h', hm', hst'⟩ := ih (hu.after .main hs) (t + 1) rfl (by omega)
      exact ⟨s', h', hm', hst'⟩
    by_cases hd : s.worker t = .done
    · exact hjoin h hm hd
    · have hs : step advance inp s (.worker t) = some (s.setWorker t .done) :=
        (h.stopping hm).dismiss (by rw [hm]; simp) (by omega) hd
      have hd' : (s.setWorker t .done).worker t = .done := by rw [setWorker_worker, if_pos rfl]
      obtain ⟨s', h', hm', hst'⟩ := hjoin (h.after (.worker t) hs) hm hd'
      exact ⟨s', h', hm', hst'⟩

theorem Reached.joinLogs (h : Reached advance inp s) :
    ∀ k t, s.main = .joinLog t → t + k = maxThreadsLog →
    ∃ s', Reached advance inp s' ∧ s'.main = .finished ∧ s'.sched = s.sched := by
  intro k
  induction k generalizing s with
  | zero =>
    intro t hm ht
    have hs : step advance inp s .main = some { s with main := .finished } := by
      simp only [step, mainStep, hm]
      rw [if_neg (by omega)]
    exact ⟨_, h.after .main hs, rfl, rfl⟩
  | succ k ih =>
    intro t hm ht
    have hjoin : ∀ {u : Threads}, Reached advance inp u → u.main = .joinLog t → u.log t = .done →
        ∃ s', Reached advance inp s' ∧ s'.main = .finished ∧ s'.sched = u.sched := by
      intro u hu hmu hd
      have hs : step advance inp u .main = some { u with main := .joinLog (t + 1) } := by
        simp only [step, mainStep, hmu]
        rw [if_pos (by omega), if_pos hd]
      obtain ⟨s', h', hm', hst'⟩ := ih (hu.after .main hs) (t + 1) rfl (by omega)
      exact ⟨s', h', hm', hst'⟩
    cases hl : s.log t with
    | unborn =>
      have hborn := h.logs t (by rw [hm]; simp only [MainPc.logs]; omega)
      exact absurd hl hborn
    | running =>
      have hs : step advance inp s (.log t) =
          some { s with log := Function.update s.log t .done } := by
        simp only [step, hl, ite_true]
      obtain ⟨s', h', hm', hst'⟩ := hjoin (h.after (.log t) hs) hm (by simp)
      exact ⟨s', h', hm', hst'⟩
    | done => exact hjoin h hm hl

theorem realize_exit (h : Reached advance inp s) (hm : s.main = .loop)
    (hf : ¬ s.sched.finished < inp.threads) :
    ∃ s', Reached advance inp s' ∧ s'.main = .finished ∧ s'.sched = s.sched := by
  obtain ⟨-, hi⟩ := h.head hm
  have hs : step advance inp s .main = some (loopBody inp s) := by simp only [step, mainStep, hm]
  obtain ⟨hf', -⟩ | ⟨q, hf', -⟩ | ⟨-, he⟩ := loopBody_cases inp s hi
  · exact absurd hf' hf
  · exact absurd hf' hf
  · rw [he] at hs
    obtain ⟨s₁, h₁, hm₁, hst₁⟩ := (h.after .main hs).join inp.threads 0 rfl (Nat.zero_add _)
    obtain ⟨s₂, h₂, hm₂, hst₂⟩ := h₁.joinLogs maxThreadsLog 0 hm₁ (Nat.zero_add _)
    exact ⟨s₂, h₂, hm₂, hst₂.trans hst₁⟩

end

end Csc412.RoundRobin
