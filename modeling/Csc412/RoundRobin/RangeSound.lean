import Csc412.Lib.Server
import Csc412.RoundRobin.OrderSound
import Csc412.RoundRobin.RealizeSound
import Csc412.RoundRobin.Report

/-!
# When the scheduler's arithmetic stays in range

The clock at the end of the loop is the largest demand over the threads, whatever
the quantum; the report's sums grow to the total turnaround of the schedule. The
scheduler stays in the range of `int` exactly when these two do
(`scheduler_inRange_iff`): the other computations of the report are bounded by them.
-/

namespace Csc412.RoundRobin

open Lib

/-! ## The condition -/

/-- The first moment thread `k` can be served. -/
def Input.release (inp : Input) (k : Nat) : Int := max 0 (inp.arr k)

/-- The bursts of the threads released with `k` or after it, served from `k`'s release on. -/
def Input.demand (inp : Input) (k : Nat) : Int :=
  inp.release k + ∑ j ∈ Finset.range inp.threads with inp.release k ≤ inp.release j, inp.bt j

def totalTurnaround (inp : Input) (es : List Event) : Int :=
  ∑ p ∈ Finset.range inp.threads, (completion p es - inp.arr p)

structure Fits (inp : Input) : Prop where
  demand : ∀ k < inp.threads, inp.demand k ≤ intMax
  turnaround : ∀ es, Schedule inp es → totalTurnaround inp es ≤ intMax

/-! ## The loop as a server -/

def Sched.server (st : Sched) : Server Nat := ⟨st.now, st.rem⟩

theorem server_step {inp : Input} {st st' : Sched} {e : Event} (hI : Inv inp st)
    (h : loopStep (· + ·) inp st e st') :
    Server.Step (Finset.range inp.threads) inp.release st.server st'.server := by
  have hf := h.1
  have hnow := hI.now_nonneg
  obtain ⟨p, hs, -, rfl⟩ | ⟨hs, -, rfl⟩ := loopStep_cases hI.i_lt h
  · obtain ⟨hp, hrun, -⟩ := search_some hI.i_lt hs
    obtain ⟨hr, ha⟩ := runnable_iff.mp hrun
    obtain ⟨hpos, hle, -⟩ := grantOf_bounds inp hr
    obtain ⟨hnow', -, hrem, -⟩ := afterSlice_fields hI hp hr (grantOf inp st p) (· + ·)
    unfold Sched.server
    rw [hnow', hrem]
    exact .serve (Finset.mem_range.mpr hp) (le_of_lt hpos) hle (max_le hnow ha) hr
  · obtain ⟨hj, ⟨⟨k, hk, -, hak⟩, hmin⟩, hlt⟩ := jump_spec hI hf hs
    have hrelease : inp.release k = nextArrival inp st.rem := by
      unfold Input.release
      omega
    rw [hj]
    unfold Sched.server
    dsimp only
    rw [← hrelease]
    refine .wait (Finset.mem_range.mpr hk) ?_ fun j hj hleft => ?_
    · dsimp only
      omega
    · have := hmin j (Finset.mem_range.mp hj) hleft
      rw [hrelease]
      exact le_max_of_le_right this

theorem release_nonneg (inp : Input) : ∀ k ∈ Finset.range inp.threads, 0 ≤ inp.release k :=
  fun _ _ => le_max_left _ _

theorem bt_nonneg (inp : Input) : ∀ k ∈ Finset.range inp.threads, 0 ≤ inp.bt k :=
  fun _ hk => le_of_lt (bt_pos inp (Finset.mem_range.mp hk))

theorem server_run {inp : Input} {es : List Event} {st : Sched}
    (h : Run (loopStep (· + ·) inp) (Sched.init inp) es st) :
    Server.Inv (Finset.range inp.threads) inp.release inp.bt st.server := by
  induction h with
  | nil => exact Server.inv_init (release_nonneg inp) (bt_nonneg inp)
  | snoc hr hs ih => exact Server.inv_step ih (server_step (acc_run hr).inv hs)

theorem now_le {inp : Input} {es : List Event} {st : Sched} {bound : Int}
    (h : Run (loopStep (· + ·) inp) (Sched.init inp) es st)
    (hbound : ∀ k < inp.threads, inp.demand k ≤ bound) :
    st.now ≤ bound := by
  have hthreads : (Finset.range inp.threads).Nonempty := ⟨0, Finset.mem_range.mpr inp.threads_pos⟩
  exact Server.clock_le (server_run h) (release_nonneg inp) hthreads
    fun k hk => hbound k (Finset.mem_range.mp hk)

theorem demand_le_now {inp : Input} {es : List Event} {st : Sched}
    (h : Run (loopStep (· + ·) inp) (Sched.init inp) es st) (hx : ¬ st.finished < inp.threads)
    {k : Nat} (hk : k < inp.threads) : inp.demand k ≤ st.now := by
  have hzero := rem_zero_of_exit (acc_run h).inv hx
  exact Server.demand_le (server_run h) (fun j hj => hzero j (Finset.mem_range.mp hj))
    (Finset.mem_range.mpr hk)
    (le_max_left _ _) (bt_nonneg inp) (bt_pos inp hk)

/-! ## Exact and machine clocks -/

theorem isInt_of_le {x : Int} (h₀ : 0 ≤ x) (h₁ : x ≤ intMax) : IsInt x := by
  refine ⟨?_, h₁⟩
  unfold intMin
  omega

/-- An iteration looks at the clock's addition in one place. -/
theorem loopStep_congr {f g : Int → Int → Int} {inp : Input} {st st' : Sched} {e : Event}
    (hi : st.i < inp.threads)
    (hadd : ∀ p, search inp.threads (runnable inp st) inp.threads st.i = some p →
      f st.now (grantOf inp st p) = g st.now (grantOf inp st p))
    (h : loopStep f inp st e st') : loopStep g inp st e st' := by
  obtain ⟨hf, he⟩ := h
  refine ⟨hf, ?_⟩
  rw [← he]
  unfold iterate
  rw [pick_eq inp st hi]
  cases hs : search inp.threads (runnable inp st) inp.threads st.i with
  | none => rfl
  | some p =>
    have hnow : (serve st p (grantOf inp st p)).now = st.now := rfl
    simp only [afterSlice, hnow, hadd p hs]

/-- While the demands are in range, a run of the machine's loop is one in exact arithmetic. -/
theorem exact_run (m : IntArith) {inp : Input} (hdemand : ∀ k < inp.threads, inp.demand k ≤ intMax)
    {es : List Event} {st : Sched} (h : Run (loopStep m.advance inp) (Sched.init inp) es st) :
    Run (loopStep (· + ·) inp) (Sched.init inp) es st := by
  induction h with
  | nil => exact .nil
  | @snoc es st e st' _ hs ih =>
    have hI := (acc_run ih).inv
    refine ih.snoc (loopStep_congr hI.i_lt (fun p hp => ?_) hs)
    -- the exact loop would go on to this clock, which is in range
    obtain ⟨hlt, hrun, -⟩ := search_some hI.i_lt hp
    have hr := (runnable_iff.mp hrun).1
    obtain ⟨e', st₁, hs'⟩ := loopStep_total (· + ·) inp hs.1
    have hle := now_le (ih.snoc hs') hdemand
    have hnow := hI.now_nonneg
    have hpos := (grantOf_bounds inp hr).1
    obtain ⟨q, hq, -, rfl⟩ | ⟨hn, -, -⟩ := loopStep_cases hI.i_lt hs'
    · rw [hp] at hq
      cases hq
      rw [(afterSlice_fields hI hlt hr _ (· + ·)).1] at hle
      exact m.exact _ (isInt_of_le (by omega) hle)
    · rw [hp] at hn
      cases hn

/-! ## The report -/

section
variable (m : IntArith) (inp : Input) (finish : Nat → Int)

theorem mem_reportPass {total : Totals} {p : Nat} {x : Int} :
    x ∈ (reportPass m inp finish total p).1 ↔
      let tat := m.value (finish p - inp.arr p)
      let waiting := tat - inp.bt p
      let wt := if m.value waiting < 0 then 0 else m.value waiting
      x = finish p - inp.arr p ∨ x = waiting ∨ x = total.wt + wt ∨ x = total.tat + tat := by
  simp [reportPass]

theorem reportTotals_tat {n : Nat} (h : ∀ p < n, ∀ x ∈ reportResults m inp finish p, IsInt x) :
    ∀ p ≤ n, (reportTotals m inp finish p).tat = ∑ k ∈ Finset.range p, (finish k - inp.arr k)
  | 0, _ => rfl
  | p + 1, hp => by
    have ih := reportTotals_tat h p (by omega)
    have hres := h p (by omega)
    have htat : IsInt (finish p - inp.arr p) := hres _ ((mem_reportPass ..).mpr (.inl rfl))
    have hsum : IsInt ((reportTotals m inp finish p).tat + (finish p - inp.arr p)) := by
      refine hres _ ((mem_reportPass ..).mpr (.inr (.inr (.inr ?_))))
      rw [m.exact _ htat]
    rw [Finset.sum_range_succ, ← ih]
    change m.value ((reportTotals m inp finish p).tat + m.value (finish p - inp.arr p)) = _
    rw [m.exact _ htat, m.exact _ hsum]

theorem total_le {n : Nat} (hn : 0 < n) (h : ∀ p < n, ∀ x ∈ reportResults m inp finish p, IsInt x) :
    ∑ k ∈ Finset.range n, (finish k - inp.arr k) ≤ intMax := by
  obtain ⟨p, rfl⟩ : ∃ p, n = p + 1 := ⟨n - 1, by omega⟩
  have hbefore := reportTotals_tat m inp finish h p (by omega)
  have hres := h p (by omega)
  have htat : IsInt (finish p - inp.arr p) := hres _ ((mem_reportPass ..).mpr (.inl rfl))
  have hsum : IsInt ((reportTotals m inp finish p).tat + (finish p - inp.arr p)) := by
    refine hres _ ((mem_reportPass ..).mpr (.inr (.inr (.inr ?_))))
    rw [m.exact _ htat]
  rw [Finset.sum_range_succ, ← hbefore]
  exact hsum.2

variable {inp finish}

theorem reportPass_exact {total : Totals} {p : Nat} (hwt : 0 ≤ total.wt)
    (hle : total.wt ≤ total.tat) (hbt : 0 ≤ inp.bt p) (hlate : inp.bt p ≤ finish p - inp.arr p)
    (hroom : total.tat + (finish p - inp.arr p) ≤ intMax) :
    (reportPass m inp finish total p).2 =
        ⟨total.wt + (finish p - inp.arr p - inp.bt p), total.tat + (finish p - inp.arr p)⟩ ∧
      ∀ x ∈ (reportPass m inp finish total p).1, IsInt x := by
  have htat : IsInt (finish p - inp.arr p) := isInt_of_le (by omega) (by omega)
  have hwaiting : IsInt (finish p - inp.arr p - inp.bt p) := isInt_of_le (by omega) (by omega)
  have hclamp : ¬ finish p - inp.arr p - inp.bt p < 0 := by omega
  have hwts : IsInt (total.wt + (finish p - inp.arr p - inp.bt p)) :=
    isInt_of_le (by omega) (by omega)
  have htats : IsInt (total.tat + (finish p - inp.arr p)) := isInt_of_le (by omega) hroom
  unfold reportPass
  simp only [m.exact _ htat, m.exact _ hwaiting, if_neg hclamp, m.exact _ hwts, m.exact _ htats,
    true_and]
  simp only [List.mem_cons, List.not_mem_nil, or_false]
  rintro x (rfl | rfl | rfl | rfl)
  · exact htat
  · exact hwaiting
  · exact hwts
  · exact htats

theorem reportTotals_exact {n : Nat} (hbt : ∀ k < n, 0 ≤ inp.bt k)
    (hlate : ∀ k < n, inp.bt k ≤ finish k - inp.arr k)
    (htotal : ∑ k ∈ Finset.range n, (finish k - inp.arr k) ≤ intMax) :
    ∀ p ≤ n, (reportTotals m inp finish p).tat = ∑ k ∈ Finset.range p, (finish k - inp.arr k) ∧
      0 ≤ (reportTotals m inp finish p).wt ∧
      (reportTotals m inp finish p).wt ≤ (reportTotals m inp finish p).tat ∧
      ∀ k < p, ∀ x ∈ reportResults m inp finish k, IsInt x
  | 0, _ => ⟨rfl, le_refl _, le_refl _, fun k hk => absurd hk (Nat.not_lt_zero k)⟩
  | p + 1, hp => by
    obtain ⟨htat, hwt, hle, hres⟩ := reportTotals_exact hbt hlate htotal p (by omega)
    have hb := hbt p hp
    have hl := hlate p hp
    have hprefix : ∑ k ∈ Finset.range (p + 1), (finish k - inp.arr k) ≤ ∑ k ∈ Finset.range n,
        (finish k - inp.arr k) := by
      apply Finset.sum_le_sum_of_subset_of_nonneg (Finset.range_subset_range.mpr hp)
      intro k hk _
      have := hbt k (Finset.mem_range.mp hk)
      have := hlate k (Finset.mem_range.mp hk)
      omega
    rw [Finset.sum_range_succ] at hprefix ⊢
    obtain ⟨hnext, hresults⟩ := reportPass_exact m hwt hle hb hl (by omega)
    change (reportPass m inp finish (reportTotals m inp finish p) p).2.tat = _ ∧
      0 ≤ (reportPass m inp finish (reportTotals m inp finish p) p).2.wt ∧
      (reportPass m inp finish (reportTotals m inp finish p) p).2.wt ≤
        (reportPass m inp finish (reportTotals m inp finish p) p).2.tat ∧ _
    rw [hnext]
    dsimp only
    refine ⟨by omega, by omega, by omega, fun k hk => ?_⟩
    rcases Nat.lt_succ_iff_lt_or_eq.mp hk with hk | rfl
    · exact hres k hk
    · exact hresults

end

/-! ## Every run of the threads -/

section
variable {m : IntArith} {inp : Input}

theorem totalTurnaround_run {es : List Event} {st : Sched}
    (h : Run (loopStep (· + ·) inp) (Sched.init inp) es st) (hx : ¬ st.finished < inp.threads) :
    totalTurnaround inp es = ∑ k ∈ Finset.range inp.threads, (st.finish k - inp.arr k) :=
  Finset.sum_congr rfl fun k hk => by rw [completion_run h hx k (Finset.mem_range.mp hk)]

theorem inRange_of_fits (hfits : Fits inp) : InRange m inp where
  clock := by
    intro acts s p hr hm hd
    obtain ⟨st, hH⟩ := hist_run hr
    obtain ⟨es, hes⟩ := hH.seq
    have hexact := exact_run m hfits.demand hes
    have hR := hH.rel.at_main
    rw [hm] at hR
    rcases hR with hP | hC
    · rw [hP.sliceDone] at hd
      cases hd
    · obtain ⟨e, st', hs, hst', -⟩ := hC.leave (· + ·)
      have hle := now_le (hexact.snoc hs) hfits.demand
      have hnonneg := (acc_run (hexact.snoc hs)).inv.now_nonneg
      have hnow : st'.now = s.sched.now + s.consumed := by
        rw [hst']
        unfold afterSlice
        split <;> rfl
      rw [← hnow]
      exact isInt_of_le hnonneg hle
  report := by
    intro acts s hr hm p hp x hx
    obtain ⟨es, st, hes, hexit, hfinish⟩ := (threads_refine_loop m.advance inp hr).result hm
    have hexact := exact_run m hfits.demand hes
    have hinv := (acc_run hexact).inv
    have hzero := rem_zero_of_exit hinv hexit
    have htotal := hfits.turnaround es (schedule_run hexact hexit)
    rw [totalTurnaround_run hexact hexit] at htotal
    have hlate : ∀ k < inp.threads, inp.bt k ≤ st.finish k - inp.arr k := by
      intro k hk
      have := hinv.finish_late k hk (hzero k hk)
      omega
    rw [hfinish] at hx
    exact (reportTotals_exact m (fun k hk => le_of_lt (bt_pos inp hk)) hlate htotal inp.threads
      (le_refl _)).2.2.2 p hp x hx

/-- Without an overflow a run in exact arithmetic is one of the machine's, and the
clock is in range when the loop is over. -/
theorem machine_run (h : InRange m inp) {es : List Event} {st : Sched}
    (hr : Run (loopStep (· + ·) inp) (Sched.init inp) es st) :
    Run (loopStep m.advance inp) (Sched.init inp) es st ∧
    (st.finished < inp.threads ∨ st.now ≤ intMax) := by
  induction hr with
  | nil => exact ⟨.nil, .inl inp.threads_pos⟩
  | @snoc es st e st' hr hs ih =>
    have hI := (acc_run hr).inv
    -- the threads come to the sum the loop is about to compute
    have hsum : ∀ p, search inp.threads (runnable inp st) inp.threads st.i = some p →
        IsInt (st.now + grantOf inp st p) := by
      intro p hp
      obtain ⟨s, hs', hm, rfl⟩ := realize_run ih.1
      obtain ⟨s₁, ⟨acts, h₁⟩, hC⟩ := hs'.granted hm hs.1 hp
      have := h.clock acts s₁ p h₁ hC.main hC.sliceDone
      rw [hC.consumed, hC.sched] at this
      exact this
    refine ⟨ih.1.snoc (loopStep_congr hI.i_lt (fun p hp => (m.exact _ (hsum p hp)).symm) hs), ?_⟩
    obtain ⟨p, hp, -, rfl⟩ | ⟨-, -, rfl⟩ := loopStep_cases hI.i_lt hs
    · obtain ⟨hlt, hrun, -⟩ := search_some hI.i_lt hp
      rw [(afterSlice_fields hI hlt (runnable_iff.mp hrun).1 _ (· + ·)).1]
      exact .inr (hsum p hp).2
    · exact .inl hs.1

theorem fits_of_inRange (h : InRange m inp) : Fits inp := by
  obtain ⟨es, st, hr, hexit⟩ := exists_exit (Sched.init inp) (inv_init inp)
  obtain ⟨hmachine, hnow⟩ := machine_run h hr
  have hnow := hnow.resolve_left hexit
  refine ⟨fun k hk => (demand_le_now hr hexit hk).trans hnow, fun es' hes' => ?_⟩
  rw [schedule_unique hes' (schedule_run hr hexit), totalTurnaround_run hr hexit]
  -- the last pass of the report stores the total
  obtain ⟨s, hs, hm, rfl⟩ := realize_run hmachine
  obtain ⟨s', ⟨acts, hacts⟩, hm', hsched⟩ := realize_exit hs hm hexit
  have hresults := h.report acts s' hacts hm'
  rw [hsched] at hresults
  exact total_le m inp s.sched.finish inp.threads_pos hresults

end

/-- No computation of the scheduler overflows exactly when every demand and the
total turnaround of the schedule are at most the largest `int`. -/
theorem scheduler_inRange_iff (m : IntArith) (inp : Input) : InRange m inp ↔ Fits inp :=
  ⟨fits_of_inRange, inRange_of_fits⟩

def lateThread : Input where
  times := [(intMax, 1)]
  q := 1
  threads_pos := by decide
  threads_le := by decide
  bt_pos := by decide
  q_pos := by decide

theorem lateThread_overflows : ¬ InRange .wrapping lateThread := by
  intro h
  have hdemand := (fits_of_inRange h).demand 0 (by decide)
  exact absurd hdemand (by decide)

end Csc412.RoundRobin
