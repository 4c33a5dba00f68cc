import Csc412.RoundRobin.SchedulerSound

/-!
# The round-robin schedule

A schedule said without the loop: at each moment an event is owed, a slice of the
first thread in cyclic order that has arrived and has work, or a jump when there is
none. No two events can be owed at once, so an input has one complete schedule
(`schedule_unique`), and the trace of the loop is it (`schedule_run`).
-/

namespace Csc412.RoundRobin

open Lib

def Event.picked : Event → Option Nat
  | .slice p _ _ _ => some p
  | .jump _ _ => none

/-- Where the scan starts: behind the thread served last. -/
def scanFrom (inp : Input) (pre : List Event) : Nat :=
  match (pre.filterMap Event.picked).getLast? with
  | some p => (p + 1) % inp.threads
  | none => 0

/-- The thread served is the first in cyclic order among those that could be. -/
def InTurn (inp : Input) (pre : List Event) : Event → Prop
  | .slice p _ _ _ => ∀ k < inp.threads, 0 < left inp k pre → inp.arr k ≤ clock pre →
      ringDist inp.threads (scanFrom inp pre) p ≤ ringDist inp.threads (scanFrom inp pre) k
  | .jump _ _ => True

def Owed (inp : Input) (pre : List Event) (e : Event) (es : List Event) : Prop :=
  EventOk inp pre e ∧ InTurn inp pre e ∧ es = pre ++ [e]

/-- A round-robin schedule that serves every thread its burst. -/
structure Schedule (inp : Input) (es : List Event) : Prop where
  run : Run (Owed inp) [] es es
  complete : ∀ p < inp.threads, left inp p es = 0

/-- The end of `p`'s last slice. -/
def completion (p : Nat) (es : List Event) : Int :=
  match (es.filter (Event.isSliceOf p)).getLast? with
  | some e => e.stop
  | none => 0

theorem LastSliceEnds.completion_eq {p : Nat} {es : List Event} {t : Int}
    (h : LastSliceEnds p es t) :
    completion p es = t := by
  obtain ⟨pre, e, post, rfl, he, hpost, ht⟩ := h
  have hnone : post.filter (Event.isSliceOf p) = [] := by
    rw [List.filter_eq_nil_iff]
    intro f hf
    rw [hpost f hf]
    exact Bool.false_ne_true
  have hlast : ((pre ++ e :: post).filter (Event.isSliceOf p)).getLast? = some e := by
    rw [List.filter_append, List.filter_cons_of_pos he, hnone, List.getLast?_append]
    rfl
  unfold completion
  rw [hlast]
  exact ht

/-! ## One event is owed -/

theorem scanFrom_lt (inp : Input) (pre : List Event) : scanFrom inp pre < inp.threads := by
  have hpos : 0 < inp.threads := inp.threads_pos
  unfold scanFrom
  split
  · exact Nat.mod_lt _ hpos
  · exact hpos

theorem Earliest.unique {inp : Input} {rem : Nat → Int} {m : Nat} {t u : Int}
    (ht : Earliest inp rem m t) (hu : Earliest inp rem m u) : t = u := by
  obtain ⟨⟨j, hj, hrj, haj⟩, htmin⟩ := ht
  obtain ⟨⟨k, hk, hrk, hak⟩, humin⟩ := hu
  have h₁ := htmin k hk hrk
  have h₂ := humin j hj hrj
  omega

theorem owed_unique (inp : Input) (pre : List Event) (e₁ e₂ : Event) (es₁ es₂ : List Event)
    (h₁ : Owed inp pre e₁ es₁) (h₂ : Owed inp pre e₂ es₂) : e₁ = e₂ ∧ es₁ = es₂ := by
  obtain ⟨hok₁, hturn₁, rfl⟩ := h₁
  obtain ⟨hok₂, hturn₂, rfl⟩ := h₂
  have hq := inp.q_pos
  have he : e₁ = e₂ := by
    cases e₁ with
    | slice p start len fin =>
      obtain ⟨hp, hstart, harr, hpos, hlen, hfin⟩ := hok₁
      cases e₂ with
      | slice p' start' len' fin' =>
        obtain ⟨hp', hstart', harr', hpos', hlen', hfin'⟩ := hok₂
        -- each comes first before the other
        have hle := hturn₁ p' hp' (by omega) (by omega)
        have hge := hturn₂ p hp (by omega) (by omega)
        obtain rfl := ringDist_inj (scanFrom_lt inp pre) hp hp' (le_antisymm hle hge)
        obtain rfl : start = start' := hstart.trans hstart'.symm
        obtain rfl : len = len' := hlen.trans hlen'.symm
        have hfin_eq : fin = fin' := Bool.eq_iff_iff.mpr (hfin.trans hfin'.symm)
        rw [hfin_eq]
      | jump start' stop' =>
        have := hok₂.2.2.1 p hp (by omega)
        have := hok₂.1
        omega
    | jump start stop =>
      cases e₂ with
      | slice p' start' len' fin' =>
        obtain ⟨hp', hstart', harr', hpos', hlen', -⟩ := hok₂
        have := hok₁.2.2.1 p' hp' (by omega)
        have := hok₁.1
        omega
      | jump start' stop' =>
        obtain rfl : start = start' := hok₁.1.trans hok₂.1.symm
        obtain rfl := hok₁.2.2.2.unique hok₂.2.2.2
        rfl
  rw [he]
  exact ⟨rfl, rfl⟩

theorem not_owed_of_complete {inp : Input} {es : List Event}
    (h : ∀ p < inp.threads, left inp p es = 0) (e : Event) (es' : List Event) :
    ¬ Owed inp es e es' := by
  rintro ⟨hok, -, -⟩
  cases e with
  | slice p start len fin =>
    have := h p hok.1
    have := hok.2.2.2.1
    have := hok.2.2.2.2.1
    omega
  | jump start stop =>
    obtain ⟨k, hk, hleft, -⟩ := hok.2.2.2.1
    have := h k hk
    dsimp only at hleft
    omega

theorem schedule_unique {inp : Input} {es₁ es₂ : List Event} (h₁ : Schedule inp es₁)
    (h₂ : Schedule inp es₂) :
    es₁ = es₂ := by
  have hle := h₂.run.isPrefix_of_final (owed_unique inp) (not_owed_of_complete h₂.complete) h₁.run
  have hge := h₁.run.isPrefix_of_final (owed_unique inp) (not_owed_of_complete h₁.complete) h₂.run
  exact hle.eq_of_length (le_antisymm hle.length_le hge.length_le)

/-! ## The loop keeps to the schedule -/

theorem scanFrom_slice (inp : Input) (es : List Event) (p : Nat) (start len : Int) (fin : Bool) :
    scanFrom inp (es ++ [.slice p start len fin]) = (p + 1) % inp.threads := by
  unfold scanFrom
  rw [List.filterMap_append]
  simp [Event.picked]

theorem scanFrom_jump (inp : Input) (es : List Event) (start stop : Int) :
    scanFrom inp (es ++ [.jump start stop]) = scanFrom inp es := by
  unfold scanFrom
  rw [List.filterMap_append]
  simp [Event.picked]

theorem scanFrom_run {inp : Input} {es : List Event} {st : Sched}
    (h : Run (loopStep (· + ·) inp) (Sched.init inp) es st) : st.i = scanFrom inp es := by
  induction h with
  | nil => rfl
  | @snoc es st e st' hr hs ih =>
    have hI := (acc_run hr).inv
    obtain ⟨p, hp, rfl, rfl⟩ | ⟨hn, rfl, rfl⟩ := loopStep_cases hI.i_lt hs
    · obtain ⟨hlt, hrun, -⟩ := search_some hI.i_lt hp
      rw [scanFrom_slice]
      exact (afterSlice_fields hI hlt (runnable_iff.mp hrun).1 _ (· + ·)).2.1
    · rw [scanFrom_jump, ← ih]
      rfl

theorem inTurn_step {inp : Input} {es : List Event} {st st' : Sched} {e : Event}
    (hr : Run (loopStep (· + ·) inp) (Sched.init inp) es st) (hs : loopStep (· + ·) inp st e st') :
    InTurn inp es e := by
  have hA := acc_run hr
  obtain ⟨p, hp, rfl, -⟩ | ⟨-, rfl, -⟩ := loopStep_cases hA.inv.i_lt hs
  · obtain ⟨hlt, -, hbefore⟩ := search_some hA.inv.i_lt hp
    intro k hk hleft harr
    rw [← scanFrom_run hr]
    by_contra hlt'
    have hidle := hbefore k hk (Nat.lt_of_not_le hlt')
    have hrun : runnable inp st k = true := by
      rw [runnable_iff, hA.rem_eq k hk, ← hA.now_eq]
      exact ⟨hleft, harr⟩
    rw [hrun] at hidle
    cases hidle
  · trivial

theorem owed_run {inp : Input} {es : List Event} {st : Sched}
    (h : Run (loopStep (· + ·) inp) (Sched.init inp) es st) : Run (Owed inp) [] es es := by
  induction h with
  | nil => exact .nil
  | snoc hr hs ih => exact ih.snoc ⟨eventOk_step (acc_run hr) hs, inTurn_step hr hs, rfl⟩

theorem schedule_run {inp : Input} {es : List Event} {st : Sched}
    (h : Run (loopStep (· + ·) inp) (Sched.init inp) es st) (hx : ¬ st.finished < inp.threads) :
    Schedule inp es := by
  have hA := acc_run h
  refine ⟨owed_run h, fun p hp => ?_⟩
  rw [← hA.rem_eq p hp]
  exact rem_zero_of_exit hA.inv hx p hp

theorem completion_run {inp : Input} {es : List Event} {st : Sched}
    (h : Run (loopStep (· + ·) inp) (Sched.init inp) es st) (hx : ¬ st.finished < inp.threads) :
    ∀ p < inp.threads, completion p es = st.finish p := by
  have hA := acc_run h
  intro p hp
  exact (hA.last p hp (rem_zero_of_exit hA.inv hx p hp)).completion_eq

end Csc412.RoundRobin
