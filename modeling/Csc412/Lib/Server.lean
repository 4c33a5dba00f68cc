import Mathlib.Algebra.BigOperators.Group.Finset.Piecewise
import Mathlib.Algebra.Order.BigOperators.Group.Finset
import Mathlib.Data.Finset.Max
import Mathlib.Tactic.Linarith

/-!
# A server that is never idle while it has work

Jobs have a release time and an amount of work. The server serves a released job
or, when every unfinished job is still to be released, waits for the first release.
Whatever the order of service, it is done with all of them at the same time: the
largest `demand` over the releases.
-/

namespace Lib

structure Server (J : Type*) where
  clock : Int
  left : J → Int

namespace Server

variable {J : Type*}

/-- One move of the server over `jobs`. -/
inductive Step [DecidableEq J] (jobs : Finset J) (release : J → Int) (s : Server J) :
    Server J → Prop
  | serve {j : J} {len : Int} (hj : j ∈ jobs) (hlen : 0 ≤ len) (hleft : len ≤ s.left j)
      (hrel : release j ≤ s.clock) (hpos : 0 < s.left j) :
      Step jobs release s ⟨s.clock + len, Function.update s.left j (s.left j - len)⟩
  | wait {j : J} (hj : j ∈ jobs) (hlate : s.clock ≤ release j)
      (hfirst : ∀ k ∈ jobs, 0 < s.left k → release j ≤ release k) :
        Step jobs release s ⟨release j, s.left⟩

variable (jobs : Finset J) (release work : J → Int)

/-- The work of the jobs released at `t` or later, added to `t`. -/
def demand (t : Int) : Int := t + ∑ j ∈ jobs with t ≤ release j, work j

/-- What the jobs released at `t` or later have received. -/
def received (left : J → Int) (t : Int) : Int := ∑ j ∈ jobs with t ≤ release j, (work j - left j)

/-- `busy` is the last moment the server started to work without a pause: nothing
released before it is unfinished. -/
structure Inv (s : Server J) : Prop where
  left_nonneg : ∀ j ∈ jobs, 0 ≤ s.left j
  left_le : ∀ j ∈ jobs, s.left j ≤ work j
  received_le : ∀ t, 0 ≤ t → received jobs release work s.left t ≤ max 0 (s.clock - t)
  busy : ∃ t, (t = 0 ∨ ∃ j ∈ jobs, release j = t) ∧ (∀ j ∈ jobs, 0 < s.left j → t ≤ release j) ∧
    s.clock ≤ t + received jobs release work s.left t

variable {jobs release work}

theorem received_nonneg {left : J → Int} (hle : ∀ j ∈ jobs, left j ≤ work j) (t : Int) :
    0 ≤ received jobs release work left t := by
  apply Finset.sum_nonneg
  intro j hj
  have := hle j (Finset.mem_filter.mp hj).1
  omega

theorem received_update [DecidableEq J] (left : J → Int) {j : J} (hj : j ∈ jobs) (len t : Int) :
    received jobs release work (Function.update left j (left j - len)) t =
      received jobs release work left t + if t ≤ release j then len else 0 := by
  have hterm : ∀ k ∈ jobs.filter (t ≤ release ·), work k - Function.update left j (left j - len) k =
      (work k - left k) + if k = j then len else 0 := by
    intro k _
    by_cases hk : k = j
    · subst hk; simp; omega
    · simp [hk]
  unfold received
  rw [Finset.sum_congr rfl hterm, Finset.sum_add_distrib, Finset.sum_ite_eq']
  simp [hj]

theorem inv_init (hrel : ∀ j ∈ jobs, 0 ≤ release j) (hwork : ∀ j ∈ jobs, 0 ≤ work j) :
    Inv jobs release work ⟨0, work⟩ where
  left_nonneg := hwork
  left_le _ _ := le_refl _
  received_le t _ := by simp [received]
  busy := ⟨0, .inl rfl, fun j hj _ => hrel j hj, by simp [received]⟩

theorem inv_step [DecidableEq J] {s s' : Server J} (h : Inv jobs release work s)
    (hs : Step jobs release s s') :
    Inv jobs release work s' := by
  cases hs with
  | @serve j len hj hlen hleft hrel hpos =>
    refine ⟨fun k hk => ?_, fun k hk => ?_, fun t ht => ?_, ?_⟩
    · have := h.left_nonneg k hk
      dsimp only
      rw [Function.update_apply]
      split
      · omega
      · exact this
    · have := h.left_le k hk
      dsimp only
      rw [Function.update_apply]
      split
      · rename_i hkj; subst hkj; omega
      · exact this
    · -- a job released after `t` is served after `t`
      have := h.received_le t ht
      rw [received_update s.left hj]
      dsimp only
      split
      · rename_i htj; omega
      · omega
    · obtain ⟨t, htime, hfirst, hclock⟩ := h.busy
      refine ⟨t, htime, fun k hk hleft => hfirst k hk ?_, ?_⟩
      · dsimp only at hleft
        rw [Function.update_apply] at hleft
        split at hleft
        · rename_i hkj; rw [hkj]; exact hpos
        · exact hleft
      · rw [received_update s.left hj, if_pos (hfirst j hj hpos)]
        dsimp only
        omega
  | @wait j hj hlate hfirst =>
    refine ⟨h.left_nonneg, h.left_le, fun t ht => ?_, release j, .inr ⟨j, hj, rfl⟩, hfirst, ?_⟩
    · have := h.received_le t ht
      dsimp only
      omega
    · have : 0 ≤ received jobs release work s.left (release j) := received_nonneg h.left_le _
      dsimp only
      omega

theorem received_le_work {s : Server J} (h : Inv jobs release work s) (t : Int) :
    t + received jobs release work s.left t ≤ demand jobs release work t := by
  unfold received demand
  apply Int.add_le_add_left
  apply Finset.sum_le_sum
  intro j hj
  have := h.left_nonneg j (Finset.mem_filter.mp hj).1
  omega

theorem demand_zero_le {bound : Int} (hrel : ∀ j ∈ jobs, 0 ≤ release j) (hjobs : jobs.Nonempty)
    (hbound : ∀ j ∈ jobs, demand jobs release work (release j) ≤ bound) :
    demand jobs release work 0 ≤ bound := by
  obtain ⟨j, hj, hmin⟩ := jobs.exists_min_image release hjobs
  have hall : jobs.filter (0 ≤ release ·) = jobs.filter (release j ≤ release ·) := by
    rw [Finset.filter_true_of_mem hrel, Finset.filter_true_of_mem hmin]
  have hj0 := hrel j hj
  have := hbound j hj
  unfold demand at this ⊢
  rw [hall]
  omega

theorem clock_le {s : Server J} (h : Inv jobs release work s) {bound : Int}
    (hrel : ∀ j ∈ jobs, 0 ≤ release j) (hjobs : jobs.Nonempty)
    (hbound : ∀ j ∈ jobs, demand jobs release work (release j) ≤ bound) :
    s.clock ≤ bound := by
  obtain ⟨t, htime, -, hclock⟩ := h.busy
  have hdemand := received_le_work h t
  have ht : demand jobs release work t ≤ bound := by
    rcases htime with rfl | ⟨j, hj, rfl⟩
    · exact demand_zero_le hrel hjobs hbound
    · exact hbound j hj
  omega

theorem demand_le {s : Server J} (h : Inv jobs release work s) (hleft : ∀ j ∈ jobs, s.left j = 0)
    {j : J} (hj : j ∈ jobs) (hrel : 0 ≤ release j) (hwork : ∀ k ∈ jobs, 0 ≤ work k)
    (hpos : 0 < work j) :
    demand jobs release work (release j) ≤ s.clock := by
  have hreceived : received jobs release work s.left (release j) = ∑ k ∈ jobs with release j ≤
      release k, work k :=
    Finset.sum_congr rfl fun k hk => by rw [hleft k (Finset.mem_filter.mp hk).1, sub_zero]
  have hsome : work j ≤ ∑ k ∈ jobs with release j ≤ release k, work k :=
    Finset.single_le_sum (fun k hk => hwork k (Finset.mem_filter.mp hk).1)
      (Finset.mem_filter.mpr ⟨hj, le_refl _⟩)
  have hle := h.received_le (release j) hrel
  rw [hreceived] at hle
  unfold demand
  omega

end Server

end Lib
