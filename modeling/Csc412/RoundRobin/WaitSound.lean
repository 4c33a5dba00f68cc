import Csc412.RoundRobin.SchedulerSound

/-!
# Bounded waiting

While thread `a` waits, each pick is closer to `a` on the ring than the pick
before it, so no other thread is picked twice and at most `threads - 1` slices
pass. The slice that is under way when `a` arrives is the first of them.
-/

namespace Csc412.RoundRobin

open Lib

def picks (es : List Event) : List Nat :=
  es.filterMap fun
    | .slice p _ _ _ => some p
    | .jump _ _ => none

@[simp] theorem picks_append (es fs : List Event) : picks (es ++ fs) = picks es ++ picks fs := by
  simp [picks]

@[simp] theorem picks_slice (p : Nat) (start len : Int) (fin : Bool) :
    picks [.slice p start len fin] = [p] := rfl

@[simp] theorem picks_jump (start stop : Int) : picks [.jump start stop] = [] := rfl

theorem countP_isSliceOf (b : Nat) (es : List Event) :
    es.countP (Event.isSliceOf b) = (picks es).count b := by
  induction es with
  | nil => rfl
  | cons e es ih =>
    rw [List.countP_cons, show picks (e :: es) = picks [e] ++ picks es from picks_append [e] es,
      List.count_append, ih]
    cases e with
    | jump start stop => simp [Event.isSliceOf]
    | slice p start len fin =>
      by_cases h : p = b <;> simp [Event.isSliceOf, h, Nat.add_comm]

/-- The state of a wait for `a` that began at `st₀` with `a` ready: the picks so
far come ever closer to `a`, and the pointer is closer still. -/
structure Waiting (inp : Input) (a : Nat) (st₀ : Sched) (es : List Event) (st : Sched) : Prop where
  inv : Inv inp st
  rem_pos : 0 < st.rem a
  arrived : inp.arr a ≤ st.now
  closing : (picks es).Pairwise fun p p' => ringDist inp.threads p' a < ringDist inp.threads p a
  range : ∀ p ∈ picks es, p < inp.threads ∧ p ≠ a
  pointer : ∀ p ∈ picks es, ringDist inp.threads st.i a < ringDist inp.threads p a
  bound : ∀ p ∈ picks es, ringDist inp.threads p a ≤ ringDist inp.threads st₀.i a
  pointer_le : ringDist inp.threads st.i a ≤ ringDist inp.threads st₀.i a
  elapsed : st.now ≤ st₀.now + (picks es).length * inp.q

theorem waiting_nil {inp : Input} {a : Nat} {st : Sched} (hI : Inv inp st) (hr : 0 < st.rem a)
    (ha : inp.arr a ≤ st.now) : Waiting inp a st [] st :=
  ⟨hI, hr, ha, .nil, by simp [picks], by simp [picks], by simp [picks], le_refl _, by simp [picks]⟩

theorem waiting_step {inp : Input} {a : Nat} {st₀ st st' : Sched} {es : List Event} {e : Event}
    (ha : a < inp.threads) (hW : Waiting inp a st₀ es st) (h : loopStep (· + ·) inp st e st')
    (he : e.isSliceOf a = false) : Waiting inp a st₀ (es ++ [e]) st' := by
  have hI := hW.inv
  have hI' := inv_step hI h
  have hready : runnable inp st a = true := runnable_iff.mpr ⟨hW.rem_pos, hW.arrived⟩
  obtain ⟨p, hs, rfl, rfl⟩ | ⟨hs, -, -⟩ := loopStep_cases hI.i_lt h
  · obtain ⟨hp, hrun, -⟩ := search_some hI.i_lt hs
    have hr := (runnable_iff.mp hrun).1
    have hpa : p ≠ a := by
      rintro rfl; simp [Event.isSliceOf] at he
    obtain ⟨hnow, hi, hrem, -, -⟩ := afterSlice_fields hI hp hr (grantOf inp st p) (· + ·)
    obtain ⟨hpos, -, hq⟩ := grantOf_bounds inp hr
    obtain ⟨hlt, hle⟩ := search_succ_lt hI.i_lt ha hready hpa hs
    have hall : ∀ x ∈ picks es, ringDist inp.threads p a < ringDist inp.threads x a := fun x hx =>
      lt_of_le_of_lt hle (hW.pointer x hx)
    refine ⟨hI', ?_, ?_, ?_, ?_, ?_, ?_, ?_, ?_⟩
    · rw [hrem, serve_rem, if_neg (Ne.symm hpa)]; exact hW.rem_pos
    · have := hW.arrived; rw [hnow]; omega
    · rw [picks_append, picks_slice]
      refine List.pairwise_append.mpr ⟨hW.closing, by simp, fun x hx y hy => ?_⟩
      rw [List.mem_singleton.mp hy]; exact hall x hx
    · intro x hx
      rw [picks_append, picks_slice] at hx
      rcases List.mem_append.mp hx with hx | hx
      · exact hW.range x hx
      · rw [List.mem_singleton.mp hx]; exact ⟨hp, hpa⟩
    · intro x hx
      rw [picks_append, picks_slice] at hx
      rw [hi]
      rcases List.mem_append.mp hx with hx | hx
      · exact lt_trans hlt (hall x hx)
      · rw [List.mem_singleton.mp hx]; exact hlt
    · intro x hx
      rw [picks_append, picks_slice] at hx
      rcases List.mem_append.mp hx with hx | hx
      · exact hW.bound x hx
      · rw [List.mem_singleton.mp hx]; exact le_trans hle hW.pointer_le
    · rw [hi]; have := hW.pointer_le; omega
    · have := hW.elapsed
      rw [hnow, picks_append, picks_slice, List.length_append, List.length_singleton]
      push_cast
      linarith
  · -- `a` itself is runnable, so the search cannot fail
    have := search_round_none hI.i_lt hs a ha
    rw [hready] at this
    cases this

theorem waiting_run {inp : Input} {a : Nat} {st₀ st : Sched} {es : List Event}
    (ha : a < inp.threads) (hI : Inv inp st₀) (hr : 0 < st₀.rem a) (harr : inp.arr a ≤ st₀.now)
    (h : Run (loopStep (· + ·) inp) st₀ es st) (he : ∀ e ∈ es, e.isSliceOf a = false) :
    Waiting inp a st₀ es st := by
  induction h with
  | nil => exact waiting_nil hI hr harr
  | snoc _ hs ih =>
    exact waiting_step ha (ih fun e h => he e (List.mem_append_left _ h)) hs
      (he _ (List.mem_append_right _ (List.mem_singleton.mpr rfl)))

/-- Picks that close in on `a` are distinct, so there are fewer of them than threads. -/
theorem closing_bounds {inp : Input} {a : Nat} {ps : List Nat} (ha : a < inp.threads)
    (hc : ps.Pairwise fun p p' => ringDist inp.threads p' a < ringDist inp.threads p a)
    (hr : ∀ p ∈ ps, p < inp.threads ∧ p ≠ a) : ps.Nodup ∧ ps.length + 1 ≤ inp.threads := by
  have hnd : ps.Nodup := hc.imp fun h he => absurd h (by rw [he]; exact lt_irrefl _)
  refine ⟨hnd, ?_⟩
  have hsub : ps.toFinset ⊆ (Finset.range inp.threads).erase a := fun p hp => by
    obtain ⟨h₁, h₂⟩ := hr p (List.mem_toFinset.mp hp)
    exact Finset.mem_erase.mpr ⟨h₂, Finset.mem_range.mpr h₁⟩
  have := Finset.card_le_card hsub
  rw [List.toFinset_card_of_nodup hnd, Finset.card_erase_of_mem (Finset.mem_range.mpr ha),
    Finset.card_range] at this
  omega

/-- `mid` are the events after `pre` during which `a` is ready and waits, from
time `ready` on: since the end of its last slice, or, before its first, since
`max (0, at[a])`, counting every event that ends then or later. -/
inductive WaitFrom (inp : Input) (a : Nat) (pre mid : List Event) (ready : Int) : Prop
  | lastSlice {pre' : List Event} {e : Event} : pre = pre' ++ [e] → e.isSliceOf a = true →
      ready = e.stop → WaitFrom inp a pre mid ready
  | arrival : ready = max 0 (inp.arr a) → (∀ e ∈ pre, e.isSliceOf a = false ∧ e.stop < ready) →
      (∀ e ∈ mid, ready ≤ e.stop) → WaitFrom inp a pre mid ready

theorem served_of_no_slice {a : Nat} {es : List Event} (h : ∀ e ∈ es, e.isSliceOf a = false) :
    served a es = 0 := by
  refine List.sum_eq_zero fun x hx => ?_
  obtain ⟨e, he, rfl⟩ := List.mem_map.mp hx
  have := h e he
  cases e with
  | jump start stop => rfl
  | slice p start len fin =>
    simp only [Event.isSliceOf, beq_eq_false_iff_ne] at this
    simp [Event.lenFor, this]

theorem clock_lt {es : List Event} {t : Int} (h : ∀ e ∈ es, e.stop < t) (ht : 0 ≤ t) :
    clock es ≤ t := by
  rcases List.eq_nil_or_concat es with rfl | ⟨es, e, rfl⟩
  · exact ht
  · rw [List.concat_eq_append, clock_snoc]; exact (h e (by simp)).le

section
variable {inp : Input} {a : Nat} {pre mid : List Event} {st₀ st : Sched} (ha : a < inp.threads)
include ha

theorem wait_from_arrival {e : Event} {ready : Int} (hA : Acc inp pre st₀) (hrem : 0 < st₀.rem a)
    (h : Run (loopStep (· + ·) inp) st₀ (e :: mid) st) (hno : ∀ f ∈ e :: mid, f.isSliceOf a = false)
    (hready : ready = max 0 (inp.arr a)) (hpre : st₀.now ≤ ready) (hstop : ready ≤ e.stop) :
    (picks (e :: mid)).Pairwise (fun p p' => ringDist inp.threads p' a < ringDist inp.threads p a) ∧
      (∀ p ∈ picks (e :: mid), p < inp.threads ∧ p ≠ a) ∧
      st.now ≤ ready + (picks (e :: mid)).length * inp.q := by
  obtain ⟨st₁, hs, hr⟩ := h.cons_inv
  have hI := hA.inv
  have hA₁ := acc_step hA hs
  have hnow₁ : st₁.now = e.stop := by rw [← hA₁.now_eq, clock_snoc]
  have hno' : ∀ f ∈ mid, f.isSliceOf a = false := fun f hf => hno f (List.mem_cons_of_mem _ hf)
  have hnoe : e.isSliceOf a = false := hno e (by simp)
  have hf := hs.1
  have hrem₁ : 0 < st₁.rem a := by
    rw [hA₁.rem_eq a ha, left, served_snoc]
    rw [hA.rem_eq a ha, left] at hrem
    have := served_of_no_slice (show ∀ f ∈ [e], f.isSliceOf a = false by simpa using hnoe)
    simp only [served, List.map_cons, List.map_nil, List.sum_cons, List.sum_nil, add_zero] at this
    omega
  have hW := waiting_run ha hA₁.inv hrem₁ (by omega) hr hno'
  have helapsed := hW.elapsed
  rw [show e :: mid = [e] ++ mid from rfl, picks_append]
  obtain ⟨b, hsearch, rfl, rfl⟩ | ⟨hsearch, rfl, rfl⟩ := loopStep_cases hI.i_lt hs
  · obtain ⟨hb, hrun, -⟩ := search_some hI.i_lt hsearch
    have hrb := (runnable_iff.mp hrun).1
    have hba : b ≠ a := by
      rintro rfl; simp [Event.isSliceOf] at hnoe
    obtain ⟨hnow, hi, -⟩ := afterSlice_fields hI hb hrb (grantOf inp st₀ b) (· + ·)
    have hlen := (grantOf_bounds inp hrb).2.2
    have hstep := ringDist_succ hb ha hba
    rw [picks_slice, List.singleton_append]
    refine ⟨List.pairwise_cons.mpr ⟨fun p hp => ?_, hW.closing⟩, fun p hp => ?_, ?_⟩
    · have := hW.bound p hp
      rw [hi] at this
      omega
    · rcases List.mem_cons.mp hp with rfl | hp
      · exact ⟨hb, hba⟩
      · exact hW.range p hp
    · rw [List.length_cons]
      push_cast
      rw [hnow] at helapsed
      linarith
  · obtain ⟨hj, ⟨-, hmin⟩, -⟩ := jump_spec hI hf hsearch
    have := hmin a ha hrem
    rw [hj] at hnow₁ helapsed
    rw [picks_jump, List.nil_append]
    refine ⟨hW.closing, hW.range, ?_⟩
    simp only at hnow₁ helapsed
    omega

end

/-- While `a` waits, every other thread completes at most one slice, and the wait
takes at most `(threads - 1) * q`. -/
theorem bounded_waiting (inp : Input) {es : List Event} {st : Sched}
    (h : Run (loopStep (· + ·) inp) (Sched.init inp) es st) {a : Nat} (ha : a < inp.threads)
    (hleft : 0 < left inp a es) {pre mid : List Event} (hes : es = pre ++ mid)
    (hno : ∀ e ∈ mid, e.isSliceOf a = false) {ready : Int} (hwait : WaitFrom inp a pre mid ready) :
    (∀ b, b ≠ a → mid.countP (Event.isSliceOf b) ≤ 1) ∧
      clock es ≤ ready + ((inp.threads : Int) - 1) * inp.q := by
  have hnow := (acc_run h).now_eq
  subst hes
  obtain ⟨st₀, hpre, hmid⟩ := h.split
  have hA := acc_run hpre
  have hq := inp.q_pos
  have hrem : 0 < st₀.rem a := by
    rw [hA.rem_eq a ha]
    have := served_of_no_slice hno
    simp only [left, served, List.map_append, List.sum_append] at hleft this ⊢
    omega
  -- both ways to wait come down to picks that close in on `a`
  suffices hkey : (picks mid).Pairwise (fun p p' => ringDist inp.threads p' a <
    ringDist inp.threads p a) ∧
      (∀ p ∈ picks mid, p < inp.threads ∧ p ≠ a) ∧
      st.now ≤ ready + (picks mid).length * inp.q by
    obtain ⟨hc, hr, hel⟩ := hkey
    obtain ⟨hnd, hlen⟩ := closing_bounds ha hc hr
    refine ⟨fun b _ => ?_, ?_⟩
    · rw [countP_isSliceOf]; exact List.nodup_iff_count_le_one.mp hnd b
    · have : ((picks mid).length : Int) * inp.q ≤ ((inp.threads : Int) - 1) * inp.q :=
        mul_le_mul_of_nonneg_right (by omega) hq.le
      omega
  cases hwait with
  | lastSlice hpre' he hready =>
    rename_i pre' e
    have hstart : st₀.now = ready := by rw [← hA.now_eq, hpre', clock_snoc, hready]
    have harr : inp.arr a ≤ st₀.now := by
      have hok := eventOk_run hpre (show pre = pre' ++ e :: [] from hpre')
      cases e with
      | jump start stop => cases he
      | slice p start len fin =>
        have hp : p = a := by simpa [Event.isSliceOf] using he
        obtain ⟨-, -, h₁, h₂, -⟩ := hok
        rw [hstart, hready, Event.stop, ← hp]
        omega
    have hW := waiting_run ha hA.inv hrem harr hmid hno
    have := hW.elapsed
    exact ⟨hW.closing, hW.range, by omega⟩
  | arrival hready hbefore hafter =>
    have hle : st₀.now ≤ ready := by
      rw [← hA.now_eq]
      exact clock_lt (fun e he => (hbefore e he).2) (by omega)
    cases mid with
    | nil =>
      rw [hmid.nil_inv]
      exact ⟨by simp [picks], by simp [picks], by simpa [picks] using hle⟩
    | cons e mid => exact wait_from_arrival ha hA hrem hmid hno hready hle (hafter e (by simp))

theorem quantum_pos : (0 : Int) < 2 := by decide

def twoThreads : Input where
  times := [(0, 3), (0, 3)]
  q := 2
  threads_pos := by decide
  threads_le := by decide
  bt_pos := by decide
  q_pos := quantum_pos

theorem twoThreads_first_slice :
    loopStep (· + ·) twoThreads (Sched.init twoThreads) (.slice 0 0 2 false)
      (iterate (· + ·) twoThreads (Sched.init twoThreads)).2 :=
  ⟨by decide, by rfl⟩

theorem bounded_waiting_twoThreads :
    (∀ b, b ≠ 1 → [Event.slice 0 0 2 false].countP (Event.isSliceOf b) ≤ 1) ∧
      clock [Event.slice 0 0 2 false] ≤ 0 + ((twoThreads.threads : Int) - 1) * twoThreads.q :=
  bounded_waiting twoThreads (Run.single twoThreads_first_slice) (by decide) (by decide)
    (show [Event.slice 0 0 2 false] = [] ++ [Event.slice 0 0 2 false] from rfl) (by decide)
    (.arrival (by decide) (by decide) (by decide))

end Csc412.RoundRobin
