import Mathlib.Algebra.BigOperators.Group.Finset.Basic
import Mathlib.Algebra.Order.BigOperators.Group.Finset
import Mathlib.Tactic.Linarith
import Csc412.Lib.Cyclic
import Csc412.RoundRobin.Scheduler

/-!
# Accounting and work conservation of the scheduler loop

Every run of the loop keeps `Inv`; the trace of a run adds up to the loop's
variables (`Acc`); every event of a trace is the right one at its moment
(`EventOk`); and the loop ends, because a slice uses up work and an idle jump is
followed by a slice.
-/

namespace Csc412.RoundRobin

open Lib

/-! ## Accepted inputs -/

def Input.toks (inp : Input) : List Int :=
  (inp.threads : Int) :: (inp.times.flatMap (fun t => [t.1, t.2]) ++ [inp.q])

theorem readTimes_flatMap : ∀ (ts : List (Int × Int)) (rest : List Int), (∀ t ∈ ts, 0 < t.2) →
    readTimes ts.length (ts.flatMap (fun t => [t.1, t.2]) ++ rest) = .ok (ts, rest)
  | [], _, _ => rfl
  | t :: ts, rest, h => by
    have ht : ¬ t.2 ≤ 0 := by have := h t (by simp); omega
    have ih := readTimes_flatMap ts rest fun u hu => h u (by simp [hu])
    simp only [List.length_cons, List.flatMap_cons, List.cons_append, List.nil_append, readTimes,
      ht, ite_false, ih]

/-- `Input` is exactly what `main` accepts: `readInput` builds no other value
and reads every one of them back from the integers typed for it. -/
theorem readInput_toks (inp : Input) : readInput inp.toks = .ok inp := by
  have hpos := inp.threads_pos
  have hle := inp.threads_le
  have hq := inp.q_pos
  have hread := readTimes_flatMap inp.times [inp.q] inp.bt_pos
  have hth : ¬ ((inp.threads : Int) < 1 ∨ 10 < (inp.threads : Int)) := by
    unfold Input.threads; omega
  unfold Input.toks readInput
  dsimp only
  rw [dif_neg hth]
  split
  · rename_i e he
    rw [show Int.toNat (inp.threads : Int) = inp.times.length from rfl, hread] at he
    cases he
  · rename_i he
    rw [show Int.toNat (inp.threads : Int) = inp.times.length from rfl, hread] at he
    cases he
  · rename_i ts q rest he
    rw [show Int.toNat (inp.threads : Int) = inp.times.length from rfl, hread] at he
    cases he
    rw [dif_neg (by omega)]

/-! ## The pick loop is a cyclic search -/

theorem pickLoop_eq (inp : Input) (st : Sched) {start : Nat} (hs : start < inp.threads) :
    ∀ fuel i, i < inp.threads → 0 < fuel → ringDist inp.threads start i + fuel = inp.threads →
      pickLoop inp st start fuel i =
        match search inp.threads (runnable inp st) fuel i with
        | some p => (some p, p)
        | none => (none, start)
  | 0, _, _, h, _ => absurd h (by omega)
  | fuel + 1, i, hi, _, hd => by
    unfold pickLoop search
    split
    · rfl
    · have hi' := succ_mod_lt hi
      by_cases hw : (i + 1) % inp.threads = start
      · -- back at the start: every position has been tried
        have hlast := ringDist_last hi hw
        obtain rfl : fuel = 0 := by omega
        simp [hw, search]
      · have hd' := ringDist_next hs hi hw
        have hlt := ringDist_lt hs hi'
        simp only [hw, ite_false]
        exact pickLoop_eq inp st hs fuel _ hi' (by omega) (by omega)

theorem pick_eq (inp : Input) (st : Sched) (hi : st.i < inp.threads) :
    pick inp st =
      match search inp.threads (runnable inp st) inp.threads st.i with
      | some p => (some p, p)
      | none => (none, st.i) :=
  pickLoop_eq inp st hi _ _ hi (by omega) (by rw [ringDist_self]; omega)

theorem runnable_iff {inp : Input} {st : Sched} {k : Nat} :
    runnable inp st k = true ↔ 0 < st.rem k ∧ inp.arr k ≤ st.now := by
  simp [runnable]

theorem bt_pos (inp : Input) {p : Nat} (hp : p < inp.threads) : 0 < inp.bt p := by
  have hget : inp.times.getD p (0, 0) = inp.times[p] := by
    simp [List.getD, List.getElem?_eq_getElem hp]
  unfold Input.bt
  rw [hget]
  exact inp.bt_pos _ (List.getElem_mem hp)

theorem loopStep_cases {advance : Int → Int → Int} {inp : Input} {st st' : Sched} {e : Event}
    (hi : st.i < inp.threads) (h : loopStep advance inp st e st') :
    (∃ p, search inp.threads (runnable inp st) inp.threads st.i = some p ∧
      e = .slice p st.now (grantOf inp st p) (finishes (serve st p (grantOf inp st p)) p) ∧
      st' = afterSlice advance inp (serve st p (grantOf inp st p)) p (grantOf inp st p)) ∨
    (search inp.threads (runnable inp st) inp.threads st.i = none ∧
      e = .jump st.now (jump inp st st.i).now ∧ st' = jump inp st st.i) := by
  obtain ⟨-, h⟩ := h
  unfold iterate at h
  rw [pick_eq inp st hi] at h
  cases hs : search inp.threads (runnable inp st) inp.threads st.i with
  | none =>
    simp only [hs, Prod.mk.injEq] at h
    exact .inr ⟨rfl, h.1.symm, h.2.symm⟩
  | some p =>
    simp only [hs, Prod.mk.injEq] at h
    exact .inl ⟨p, rfl, h.1.symm, h.2.symm⟩

theorem loopStep_total (advance : Int → Int → Int) (inp : Input) {st : Sched}
    (h : st.finished < inp.threads) :
    ∃ e st', loopStep advance inp st e st' := ⟨_, _, h, rfl⟩

theorem loopStep_det (advance : Int → Int → Int) (inp : Input) (st : Sched) (e₁ e₂ : Event)
    (st₁ st₂ : Sched) (h₁ : loopStep advance inp st e₁ st₁) (h₂ : loopStep advance inp st e₂ st₂) :
    e₁ = e₂ ∧ st₁ = st₂ := by
  have := h₁.2.symm.trans h₂.2
  simpa using this

/-! ## The next arrival -/

def nextUpto (inp : Input) (rem : Nat → Int) (m : Nat) : Int :=
  (List.range m).foldl (nextArrivalStep inp rem) (-1)

def Earliest (inp : Input) (rem : Nat → Int) (m : Nat) (t : Int) : Prop :=
  (∃ k < m, 0 < rem k ∧ inp.arr k = t) ∧ ∀ k < m, 0 < rem k → t ≤ inp.arr k

theorem nextUpto_spec (inp : Input) (rem : Nat → Int) (m : Nat)
    (hpos : ∀ k < m, 0 < rem k → 0 < inp.arr k) :
    (nextUpto inp rem m = -1 ∧ ∀ k < m, ¬ 0 < rem k) ∨
      (0 < nextUpto inp rem m ∧ Earliest inp rem m (nextUpto inp rem m)) := by
  induction m with
  | zero => exact .inl ⟨rfl, fun k hk => absurd hk (by omega)⟩
  | succ m ih =>
    have hsucc : nextUpto inp rem (m + 1) = nextArrivalStep inp rem (nextUpto inp rem m) m := by
      simp [nextUpto, List.range_succ]
    rw [hsucc, nextArrivalStep]
    have ih := ih fun k hk => hpos k (by omega)
    by_cases hm : 0 < rem m
    · have hmpos := hpos m (by omega) hm
      simp only [hm, ite_true]
      right
      rcases ih with ⟨hn, hno⟩ | ⟨hn, ⟨k, hk, hrk, hak⟩, hmin⟩
      · rw [hn]
        refine ⟨by simpa using hmpos, ⟨m, by omega, hm, by simp⟩, fun j hj hrj => ?_⟩
        rcases Nat.lt_succ_iff_lt_or_eq.mp hj with hj | rfl
        · exact absurd hrj (hno j hj)
        · simp
      · by_cases hlt : inp.arr m < nextUpto inp rem m
        · simp only [hlt, or_true, ite_true]
          refine ⟨hmpos, ⟨m, by omega, hm, rfl⟩, fun j hj hrj => ?_⟩
          rcases Nat.lt_succ_iff_lt_or_eq.mp hj with hj | rfl
          · have := hmin j hj hrj; omega
          · exact le_refl _
        · have hne : ¬ (nextUpto inp rem m = -1 ∨ inp.arr m < nextUpto inp rem m) := by omega
          simp only [hne, ite_false]
          refine ⟨hn, ⟨k, by omega, hrk, hak⟩, fun j hj hrj => ?_⟩
          rcases Nat.lt_succ_iff_lt_or_eq.mp hj with hj | rfl
          · exact hmin j hj hrj
          · omega
    · simp only [hm, ite_false]
      rcases ih with ⟨hn, hno⟩ | ⟨hn, ⟨k, hk, hrk, hak⟩, hmin⟩
      · refine .inl ⟨hn, fun j hj => ?_⟩
        rcases Nat.lt_succ_iff_lt_or_eq.mp hj with hj | rfl
        · exact hno j hj
        · exact hm
      · refine .inr ⟨hn, ⟨k, by omega, hrk, hak⟩, fun j hj hrj => ?_⟩
        rcases Nat.lt_succ_iff_lt_or_eq.mp hj with hj | rfl
        · exact hmin j hj hrj
        · exact absurd hrj hm

/-- The sentinel `-1` is never mistaken for an arrival: when no unfinished thread
has arrived, `next_arrival` is the earliest of their arrivals. -/
theorem nextArrival_earliest {inp : Input} {st : Sched} (hnow : 0 ≤ st.now)
    (hidle : ∀ k < inp.threads, 0 < st.rem k → st.now < inp.arr k)
    (hwork : ∃ k < inp.threads, 0 < st.rem k) :
    Earliest inp st.rem inp.threads (nextArrival inp st.rem) ∧ st.now < nextArrival inp st.rem := by
  have hpos : ∀ k < inp.threads, 0 < st.rem k → 0 < inp.arr k := fun k hk hr => by
    have := hidle k hk hr; omega
  have hspec := nextUpto_spec inp st.rem inp.threads hpos
  rw [show nextUpto inp st.rem inp.threads = nextArrival inp st.rem from rfl] at hspec
  rcases hspec with ⟨-, hno⟩ | ⟨-, he⟩
  · obtain ⟨k, hk, hr⟩ := hwork
    exact absurd hr (hno k hk)
  · obtain ⟨k, hk, hr, ha⟩ := he.1
    have := hidle k hk hr
    exact ⟨he, by omega⟩

/-! ## The loop invariant -/

def finishedSet (inp : Input) (rem : Nat → Int) : Finset Nat :=
  (Finset.range inp.threads).filter fun p => rem p = 0

structure Inv (inp : Input) (st : Sched) : Prop where
  now_nonneg : 0 ≤ st.now
  i_lt : st.i < inp.threads
  rem_nonneg : ∀ p < inp.threads, 0 ≤ st.rem p
  rem_le : ∀ p < inp.threads, st.rem p ≤ inp.bt p
  unfinished : ∀ p < inp.threads, 0 < st.rem p → st.finish p = -1
  served_late : ∀ p < inp.threads, st.rem p < inp.bt p → inp.arr p + (inp.bt p - st.rem p) ≤ st.now
  finish_late : ∀ p < inp.threads, st.rem p = 0 → inp.arr p + inp.bt p ≤ st.finish p
  finished_eq : st.finished = (finishedSet inp st.rem).card

theorem inv_init (inp : Input) : Inv inp (Sched.init inp) where
  now_nonneg := le_refl _
  i_lt := inp.threads_pos
  rem_nonneg p hp := (bt_pos inp hp).le
  rem_le p _ := le_refl _
  unfinished _ _ _ := rfl
  served_late p _ h := absurd h (lt_irrefl _)
  finish_late p hp h := by have := bt_pos inp hp; simp only [Sched.init] at h; omega
  finished_eq := by
    have : finishedSet inp inp.bt = ∅ := by
      refine Finset.filter_eq_empty_iff.mpr fun p hp => ?_
      have := bt_pos inp (Finset.mem_range.mp hp)
      omega
    simp [Sched.init, this]

theorem grantOf_eq_min (inp : Input) (st : Sched) (p : Nat) :
    grantOf inp st p = min inp.q (st.rem p) := by
  unfold grantOf; split <;> omega

theorem grantOf_bounds (inp : Input) {st : Sched} {p : Nat} (h : 0 < st.rem p) :
    0 < grantOf inp st p ∧ grantOf inp st p ≤ st.rem p ∧ grantOf inp st p ≤ inp.q := by
  have := inp.q_pos
  unfold grantOf; split <;> omega

theorem serve_rem (st : Sched) (p : Nat) (len : Int) (k : Nat) :
    (serve st p len).rem k = if k = p then st.rem p - len else st.rem k := by
  simp [serve, Function.update_apply]

section
variable {inp : Input} {st : Sched} {p : Nat} {len : Int}

theorem finishes_serve (hI : Inv inp st) (hp : p < inp.threads) (hr : 0 < st.rem p) :
    finishes (serve st p len) p = decide (len = st.rem p) := by
  have hf := hI.unfinished p hp hr
  have : (serve st p len).rem p = 0 ↔ len = st.rem p := by simp [serve_rem]; omega
  simp [finishes, this, show (serve st p len).finish p = -1 from hf]

theorem finishedSet_serve (hp : p < inp.threads) (hr : 0 < st.rem p) (hlen : len = st.rem p) :
    (finishedSet inp (serve st p len).rem).card = (finishedSet inp st.rem).card + 1 := by
  have hins : finishedSet inp (serve st p len).rem = insert p (finishedSet inp st.rem) := by
    ext k
    simp only [finishedSet, Finset.mem_insert, Finset.mem_filter, Finset.mem_range, serve_rem]
    by_cases hk : k = p
    · subst hk; simp [hp, hlen]
    · simp [hk]
  rw [hins, Finset.card_insert_of_notMem]
  simp [finishedSet, hr.ne']

theorem finishedSet_serve_ne (hr : 0 < st.rem p) (hlen : len < st.rem p) :
    finishedSet inp (serve st p len).rem = finishedSet inp st.rem := by
  ext k
  simp only [finishedSet, Finset.mem_filter, Finset.mem_range, serve_rem]
  by_cases hk : k = p
  · subst hk; simp only [ite_true]; omega
  · simp [hk]

theorem afterSlice_fields (hI : Inv inp st) (hp : p < inp.threads) (hr : 0 < st.rem p) (len : Int)
    (advance : Int → Int → Int) :
    let st' := afterSlice advance inp (serve st p len) p len
    st'.now = advance st.now len ∧ st'.i = (p + 1) % inp.threads ∧ st'.rem = (serve st p len).rem ∧
      (∀ k, st'.finish k = if k = p ∧ len = st.rem p then advance st.now len else st.finish k) ∧
      st'.finished = if len = st.rem p then st.finished + 1 else st.finished := by
  unfold afterSlice
  rw [finishes_serve hI hp hr]
  by_cases h : len = st.rem p
  · simp [h, serve, Function.update_apply]
  · simp [h, serve]

end

theorem inv_slice {inp : Input} {st : Sched} {p : Nat} (hI : Inv inp st) (hp : p < inp.threads)
    (hrun : runnable inp st p = true) :
    Inv inp (afterSlice (· + ·) inp (serve st p (grantOf inp st p)) p (grantOf inp st p)) := by
  obtain ⟨hr, ha⟩ := runnable_iff.mp hrun
  obtain ⟨hpos, hle, -⟩ := grantOf_bounds inp hr
  obtain ⟨hnow, hi, hrem, hfin, hcount⟩ :=
    afterSlice_fields hI hp hr (grantOf inp st p) (· + ·)
  have hlate := hI.served_late p hp
  have hbt := hI.rem_le p hp
  generalize afterSlice (· + ·) inp (serve st p (grantOf inp st p)) p (grantOf inp st p) = st' at *
  generalize grantOf inp st p = len at *
  have hremk : ∀ k, st'.rem k = if k = p then st.rem p - len else st.rem k := fun k => by
    rw [hrem, serve_rem]
  -- `p` had been served from its arrival on, so its work so far fits before `now`
  have hpnow : inp.arr p + (inp.bt p - st.rem p) ≤ st.now := by
    rcases lt_or_eq_of_le hbt with h | h
    · exact hlate h
    · omega
  refine ⟨?_, ?_, fun k hk => ?_, fun k hk => ?_, fun k hk h => ?_, fun k hk h => ?_,
    fun k hk h => ?_, ?_⟩
  · have := hI.now_nonneg; omega
  · rw [hi]; exact succ_mod_lt hp
  · rw [hremk]; split
    · omega
    · exact hI.rem_nonneg k hk
  · rw [hremk]; split
    · subst k; omega
    · exact hI.rem_le k hk
  · rw [hremk] at h
    rw [hfin]
    split at h
    · rw [if_neg (by omega)]; subst k; exact hI.unfinished p hp hr
    · rw [if_neg (by omega)]; exact hI.unfinished k hk h
  · rw [hremk] at h ⊢
    split at h
    · subst k; rw [if_pos rfl]; omega
    · rename_i hkp
      rw [if_neg hkp]
      have := hI.served_late k hk h
      omega
  · rw [hremk] at h
    rw [hfin]
    split at h
    · subst k; rw [if_pos ⟨rfl, by omega⟩]; omega
    · rw [if_neg (by omega)]; exact hI.finish_late k hk h
  · rw [hcount, hrem, hI.finished_eq]
    split
    · rename_i h; exact (finishedSet_serve hp hr h).symm
    · rw [finishedSet_serve_ne hr (by omega)]

theorem exists_unfinished {inp : Input} {st : Sched} (hI : Inv inp st)
    (h : st.finished < inp.threads) :
    ∃ k < inp.threads, 0 < st.rem k := by
  by_contra hno
  push Not at hno
  have hall : finishedSet inp st.rem = Finset.range inp.threads := by
    refine Finset.filter_true_of_mem fun k hk => ?_
    have h₁ := hno k (Finset.mem_range.mp hk)
    have h₂ := hI.rem_nonneg k (Finset.mem_range.mp hk)
    omega
  rw [hI.finished_eq, hall, Finset.card_range] at h
  exact absurd h (lt_irrefl _)

theorem idle_of_search_none {inp : Input} {st : Sched} (hI : Inv inp st)
    (h : search inp.threads (runnable inp st) inp.threads st.i = none) :
    ∀ k < inp.threads, 0 < st.rem k → st.now < inp.arr k := by
  intro k hk hr
  have := search_round_none hI.i_lt h k hk
  simp only [runnable, Bool.and_eq_false_iff, decide_eq_false_iff_not, not_lt, not_le] at this
  omega

theorem jump_spec {inp : Input} {st : Sched} (hI : Inv inp st) (hf : st.finished < inp.threads)
    (h : search inp.threads (runnable inp st) inp.threads st.i = none) :
    jump inp st st.i = { st with now := nextArrival inp st.rem } ∧
      Earliest inp st.rem inp.threads (nextArrival inp st.rem) ∧
      st.now < nextArrival inp st.rem := by
  obtain ⟨he, hlt⟩ := nextArrival_earliest hI.now_nonneg (idle_of_search_none hI h)
    (exists_unfinished hI hf)
  refine ⟨?_, he, hlt⟩
  simp [jump, hlt]

theorem inv_step {inp : Input} {st st' : Sched} {e : Event} (hI : Inv inp st)
    (h : loopStep (· + ·) inp st e st') : Inv inp st' := by
  have hf := h.1
  obtain ⟨p, hs, -, rfl⟩ | ⟨hs, -, rfl⟩ := loopStep_cases hI.i_lt h
  · obtain ⟨hp, hrun, -⟩ := search_some hI.i_lt hs
    exact inv_slice hI hp hrun
  · obtain ⟨hj, -, hlt⟩ := jump_spec hI hf hs
    have := hI.now_nonneg
    rw [hj]
    refine ⟨by simp only; omega, hI.i_lt, hI.rem_nonneg, hI.rem_le, hI.unfinished, fun p hp h => ?_,
      hI.finish_late, hI.finished_eq⟩
    have := hI.served_late p hp h
    simp only; omega

/-! ## Traces -/

def Event.lenFor (p : Nat) : Event → Int
  | .slice k _ len _ => if k = p then len else 0
  | .jump _ _ => 0

def Event.stop : Event → Int
  | .slice _ start len _ => start + len
  | .jump _ stop => stop

def Event.isSliceOf (p : Nat) : Event → Bool
  | .slice k _ _ _ => k == p
  | .jump _ _ => false

def Event.writeFor (p : Nat) : Event → Option Int
  | .slice k start len true => if k = p then some (start + len) else none
  | _ => none

def served (p : Nat) (es : List Event) : Int := (es.map (Event.lenFor p)).sum

def left (inp : Input) (p : Nat) (es : List Event) : Int := inp.bt p - served p es

def clock (es : List Event) : Int := (es.getLast?.map Event.stop).getD 0

def writes (p : Nat) (es : List Event) : List Int := es.filterMap (Event.writeFor p)

@[simp] theorem served_snoc (p : Nat) (es : List Event) (e : Event) :
    served p (es ++ [e]) = served p es + e.lenFor p := by simp [served]

@[simp] theorem clock_snoc (es : List Event) (e : Event) : clock (es ++ [e]) = e.stop := by
  simp [clock]

@[simp] theorem writes_snoc (p : Nat) (es : List Event) (e : Event) :
    writes p (es ++ [e]) = writes p es ++ (e.writeFor p).toList := by
  cases h : e.writeFor p <;> simp [writes, h]

/-- The event is the one the scheduler owes at this moment: a slice of an arrived
thread of length `min (q, rem)`, or, when no unfinished thread has arrived, a jump
to the earliest arrival among them. -/
def EventOk (inp : Input) (pre : List Event) : Event → Prop
  | .slice p start len fin =>
    p < inp.threads ∧ start = clock pre ∧ inp.arr p ≤ start ∧ 0 < len ∧
      len = min inp.q (left inp p pre) ∧ (fin = true ↔ len = left inp p pre)
  | .jump start stop =>
    start = clock pre ∧ start < stop ∧
      (∀ k < inp.threads, 0 < left inp k pre → start < inp.arr k) ∧
      Earliest inp (fun k => left inp k pre) inp.threads stop

def LastSliceEnds (p : Nat) (es : List Event) (t : Int) : Prop :=
  ∃ pre e post, es = pre ++ e :: post ∧ e.isSliceOf p = true ∧ (∀ f ∈ post, f.isSliceOf p = false) ∧
    e.stop = t

/-- The trace adds up to the loop's variables. -/
structure Acc (inp : Input) (es : List Event) (st : Sched) : Prop where
  inv : Inv inp st
  rem_eq : ∀ p < inp.threads, st.rem p = left inp p es
  now_eq : clock es = st.now
  writes_eq : ∀ p < inp.threads, writes p es = if st.rem p = 0 then [st.finish p] else []
  last : ∀ p < inp.threads, st.rem p = 0 → LastSliceEnds p es (st.finish p)

theorem acc_init (inp : Input) : Acc inp [] (Sched.init inp) where
  inv := inv_init inp
  rem_eq p _ := by simp [Sched.init, left, served]
  now_eq := rfl
  writes_eq p hp := by have := bt_pos inp hp; simp [Sched.init, writes, this.ne']
  last p hp h := by have := bt_pos inp hp; simp only [Sched.init] at h; omega

theorem LastSliceEnds.snoc {p : Nat} {es : List Event} {t : Int} (h : LastSliceEnds p es t)
    {e : Event} (he : e.isSliceOf p = false) : LastSliceEnds p (es ++ [e]) t := by
  obtain ⟨pre, f, post, rfl, hf, hpost, ht⟩ := h
  refine ⟨pre, f, post ++ [e], by simp, hf, fun g hg => ?_, ht⟩
  rcases List.mem_append.mp hg with hg | hg
  · exact hpost g hg
  · rw [List.mem_singleton.mp hg]; exact he

theorem acc_slice {inp : Input} {es : List Event} {st : Sched} {p : Nat} (hA : Acc inp es st)
    (hp : p < inp.threads) (hrun : runnable inp st p = true) :
    let len := grantOf inp st p
    Acc inp (es ++ [.slice p st.now len (finishes (serve st p len) p)])
      (afterSlice (· + ·) inp (serve st p len) p len) := by
  intro len
  have hI := hA.inv
  have hr := (runnable_iff.mp hrun).1
  have hI' := inv_slice hI hp hrun
  obtain ⟨hnow, -, hrem, hfin, -⟩ := afterSlice_fields hI hp hr len (· + ·)
  rw [finishes_serve hI hp hr]
  change Inv inp (afterSlice (· + ·) inp (serve st p len) p len) at hI'
  generalize afterSlice (· + ·) inp (serve st p len) p len = st' at *
  have hremk : ∀ k, st'.rem k = if k = p then st.rem p - len else st.rem k := fun k => by
    rw [hrem, serve_rem]
  refine ⟨hI', fun k hk => ?_, by simp [Event.stop, hnow], fun k hk => ?_, fun k hk h => ?_⟩
  · have := hA.rem_eq k hk
    rw [hremk]
    simp only [left, served_snoc, Event.lenFor] at this ⊢
    by_cases h : p = k
    · subst h; simp only [ite_true]; omega
    · simp only [h, Ne.symm h, ite_false]; omega
  · rw [writes_snoc, hA.writes_eq k hk, hremk, hfin]
    by_cases h : p = k
    · subst h
      by_cases hl : len = st.rem p
      · simp [hl, Event.writeFor, hr.ne']
      · have : st.rem p - len ≠ 0 := by omega
        simp [hl, Event.writeFor, hr.ne', this]
    · by_cases hl : len = st.rem p <;> simp [hl, Event.writeFor, h, Ne.symm h]
  · rw [hremk] at h
    rw [hfin]
    split at h
    · subst k
      refine ⟨es, _, [], rfl, by simp [Event.isSliceOf], by simp, ?_⟩
      rw [if_pos ⟨rfl, by omega⟩]
      rfl
    · rename_i hkp
      rw [if_neg (fun h => hkp h.1)]
      exact (hA.last k hk h).snoc (by simp [Event.isSliceOf, Ne.symm hkp])

theorem acc_step {inp : Input} {es : List Event} {st st' : Sched} {e : Event} (hA : Acc inp es st)
    (h : loopStep (· + ·) inp st e st') : Acc inp (es ++ [e]) st' := by
  have hI := hA.inv
  have hI' := inv_step hI h
  have hf := h.1
  obtain ⟨p, hs, rfl, rfl⟩ | ⟨hs, rfl, rfl⟩ := loopStep_cases hI.i_lt h
  · obtain ⟨hp, hrun, -⟩ := search_some hI.i_lt hs
    exact acc_slice hA hp hrun
  · rw [(jump_spec hI hf hs).1] at hI' ⊢
    refine ⟨hI', fun k hk => ?_, by simp [Event.stop], fun k hk => ?_, fun k hk h => ?_⟩
    · simpa [left, Event.lenFor] using hA.rem_eq k hk
    · simpa [Event.writeFor] using hA.writes_eq k hk
    · exact (hA.last k hk h).snoc rfl

theorem acc_run {inp : Input} {es : List Event} {st : Sched}
    (h : Run (loopStep (· + ·) inp) (Sched.init inp) es st) : Acc inp es st := by
  induction h with
  | nil => exact acc_init inp
  | snoc _ hs ih => exact acc_step ih hs

theorem eventOk_step {inp : Input} {pre : List Event} {st st' : Sched} {e : Event}
    (hA : Acc inp pre st) (h : loopStep (· + ·) inp st e st') : EventOk inp pre e := by
  have hI := hA.inv
  have hf := h.1
  obtain ⟨p, hs, rfl, -⟩ | ⟨hs, rfl, -⟩ := loopStep_cases hI.i_lt h
  · obtain ⟨hp, hrun, -⟩ := search_some hI.i_lt hs
    obtain ⟨hr, ha⟩ := runnable_iff.mp hrun
    refine ⟨hp, hA.now_eq.symm, ha, (grantOf_bounds inp hr).1, ?_, ?_⟩
    · rw [grantOf_eq_min, hA.rem_eq p hp]
    · rw [finishes_serve hI hp hr, hA.rem_eq p hp]; simp
  · obtain ⟨hj, ⟨⟨k, hk, hrk, hak⟩, hmin⟩, hlt⟩ := jump_spec hI hf hs
    rw [hj]
    have hidle := idle_of_search_none hI hs
    refine ⟨hA.now_eq.symm, hlt, fun j hj hl => hidle j hj ?_, ⟨k, hk, ?_, hak⟩,
      fun j hj hl => hmin j hj ?_⟩
    · rw [hA.rem_eq j hj]; exact hl
    · simp only; rw [← hA.rem_eq k hk]; exact hrk
    · rw [hA.rem_eq j hj]; exact hl

theorem eventOk_run {inp : Input} {es : List Event} {st : Sched}
    (h : Run (loopStep (· + ·) inp) (Sched.init inp) es st) {pre post : List Event} {e : Event}
    (he : es = pre ++ e :: post) : EventOk inp pre e := by
  subst he
  obtain ⟨t, ht, hr⟩ := h.split
  obtain ⟨u, hs, -⟩ := hr.cons_inv
  exact eventOk_step (acc_run ht) hs

/-! ## The loop ends -/

def work (inp : Input) (st : Sched) : Nat := ∑ p ∈ Finset.range inp.threads, (st.rem p).toNat

/-- Slices count double, so that an idle iteration before a slice is paid for. -/
def measure (inp : Input) (st : Sched) : Nat :=
  2 * work inp st + if (search inp.threads (runnable inp st) inp.threads st.i).isSome then 0 else 1

theorem work_slice {inp : Input} {st : Sched} {p : Nat} (hI : Inv inp st) (hp : p < inp.threads)
    (hr : 0 < st.rem p) :
    work inp (afterSlice (· + ·) inp (serve st p (grantOf inp st p)) p (grantOf inp st p)) <
        work inp st := by
  obtain ⟨hpos, hle, -⟩ := grantOf_bounds inp hr
  obtain ⟨-, -, hrem, -⟩ := afterSlice_fields hI hp hr (grantOf inp st p) (· + ·)
  unfold work
  rw [hrem]
  refine Finset.sum_lt_sum (fun k _ => ?_) ⟨p, Finset.mem_range.mpr hp, ?_⟩
  · rw [serve_rem]; split
    · subst k; omega
    · exact le_refl _
  · rw [serve_rem, if_pos rfl]; omega

theorem measure_step {inp : Input} {st st' : Sched} {e : Event} (hI : Inv inp st)
    (h : loopStep (· + ·) inp st e st') : measure inp st' < measure inp st := by
  have hf := h.1
  have hI' := inv_step hI h
  obtain ⟨p, hs, -, rfl⟩ | ⟨hs, -, rfl⟩ := loopStep_cases hI.i_lt h
  · obtain ⟨hp, hrun, -⟩ := search_some hI.i_lt hs
    have := work_slice hI hp (runnable_iff.mp hrun).1
    unfold measure
    simp only [hs, Option.isSome_some, ite_true]
    split <;> omega
  · -- after the jump the earliest thread is runnable
    obtain ⟨hj, ⟨⟨k, hk, hrk, hak⟩, -⟩, -⟩ := jump_spec hI hf hs
    rw [hj] at hI' ⊢
    have hsome : (search inp.threads (runnable inp { st with now := nextArrival inp st.rem })
        inp.threads st.i).isSome = true := by
      rw [Option.isSome_iff_ne_none]
      intro hn
      have := idle_of_search_none hI' hn k hk hrk
      simp only at this
      omega
    unfold measure work
    simp only [hsome, hs, ite_true, Option.isSome_none, Bool.false_eq_true, ite_false]
    omega

theorem exists_exit {inp : Input} (st : Sched) (hI : Inv inp st) :
    ∃ es st', Run (loopStep (· + ·) inp) st es st' ∧ ¬ st'.finished < inp.threads := by
  by_cases hf : st.finished < inp.threads
  · obtain ⟨e, st₁, hs⟩ := loopStep_total (· + ·) inp hf
    obtain ⟨es, st', hr, hx⟩ := exists_exit st₁ (inv_step hI hs)
    exact ⟨e :: es, st', hr.cons hs, hx⟩
  · exact ⟨[], st, .nil, hf⟩
termination_by measure inp st
decreasing_by exact measure_step hI hs

theorem rem_zero_of_exit {inp : Input} {st : Sched} (hI : Inv inp st)
    (h : ¬ st.finished < inp.threads) :
    ∀ p < inp.threads, st.rem p = 0 := by
  have hle : finishedSet inp st.rem ⊆ Finset.range inp.threads := Finset.filter_subset _ _
  have hall : finishedSet inp st.rem = Finset.range inp.threads := by
    refine Finset.eq_of_subset_of_card_le hle ?_
    rw [Finset.card_range, ← hI.finished_eq]; omega
  intro p hp
  have : p ∈ finishedSet inp st.rem := hall ▸ Finset.mem_range.mpr hp
  exact (Finset.mem_filter.mp this).2

theorem finished_le {inp : Input} {st : Sched} (hI : Inv inp st) : st.finished ≤ inp.threads := by
  have := Finset.card_filter_le (Finset.range inp.threads) fun p => st.rem p = 0
  rw [Finset.card_range] at this
  rw [hI.finished_eq]
  exact this

/-- The loop has one complete run and every other run is a prefix of it; in it
every thread is served its burst, every `finish[p]` is written once, at the end
of `p`'s last slice, and the report's clamp leaves every waiting time alone. -/
theorem scheduler_accounting (inp : Input) :
    ∃ es st, Run (loopStep (· + ·) inp) (Sched.init inp) es st ∧ st.finished = inp.threads ∧
      (∀ es' st', Run (loopStep (· + ·) inp) (Sched.init inp) es' st' → es' <+: es) ∧
      (∀ pre e post, es = pre ++ e :: post → EventOk inp pre e) ∧
      ∀ p < inp.threads,
        served p es = inp.bt p ∧ writes p es = [st.finish p] ∧ LastSliceEnds p es (st.finish p) ∧
        inp.bt p ≤ st.finish p - inp.arr p ∧
        reportLine inp st.finish p =
          { tat := st.finish p - inp.arr p, wt := st.finish p - inp.arr p - inp.bt p } := by
  obtain ⟨es, st, hr, hx⟩ := exists_exit (Sched.init inp) (inv_init inp)
  have hA := acc_run hr
  have hfin := finished_le hA.inv
  refine ⟨es, st, hr, by omega, fun es' st' h' => ?_, fun _ _ _ he => eventOk_run hr he,
    fun p hp => ?_⟩
  · exact hr.isPrefix_of_final (loopStep_det _ inp) (fun _ _ hs => hx hs.1) h'
  · have hz := rem_zero_of_exit hA.inv hx p hp
    have hl := hA.rem_eq p hp
    have hw := hA.writes_eq p hp
    have hlate := hA.inv.finish_late p hp hz
    rw [if_pos hz] at hw
    refine ⟨by unfold left at hl; omega, hw, hA.last p hp hz, by omega, ?_⟩
    simp only [reportLine, Line.mk.injEq, true_and]
    rw [if_neg (by omega)]

end Csc412.RoundRobin
