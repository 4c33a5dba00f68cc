import Mathlib.Data.List.Induction
import Csc412.Lib.Fallible
import Csc412.Stencil.Keyboard

/-!
# Speed controls

The sleep times stay in range as long as no key is pressed that takes a product or a sum
out of the `int`s: `speedControls_iff`. Pressing `<` often enough does, and so does `-`,
whose guard adds before it compares.
-/

namespace Csc412.Stencil

open Lib

inductive Command where
  | slowerProducers
  | fasterProducers
  | fasterInklings
  | slowerInklings
deriving DecidableEq

/-- `<`, `>`, `+` and `-`. -/
def Command.key : Command → UInt8
  | .slowerProducers => 0x3C
  | .fasterProducers => 0x3E
  | .fasterInklings => 0x2B
  | .slowerInklings => 0x2D

def press (s : Controls) (c : Command) : Except Stop Controls := myKeyboard s c.key

def presses (s : Controls) (commands : List Command) : Except Stop Controls :=
  commands.foldlM press s

structure Sane (s : Controls) : Prop where
  producer : minSleepTime < s.producerSleepTime
  inkling : 0 < s.inklingSleepTime

/-- No key overflows, and the controls are sane after each. -/
def StaysSane (commands : List Command) : Prop :=
  ∀ pre, pre <+: commands → ∃ s, presses initial pre = .ok s ∧ Sane s

/-- The product or the sum that the key makes is an `int`. -/
def Fits (s : Controls) : Command → Prop
  | .slowerProducers => s.producerSleepTime ≤ 178956970
  | .slowerInklings => s.inklingSleepTime ≤ 2147383647
  | _ => True

theorem int_eq {x : Int} (hlo : -2 ^ 31 ≤ x) (hhi : x < 2 ^ 31) : int x = .ok x := if_pos ⟨hlo, hhi⟩

theorem int_ok {x y : Int} (h : int x = .ok y) : x < 2 ^ 31 := by
  rw [int] at h
  split at h
  · next hrange => exact hrange.2
  · cases h

/-- What sane controls reach where the keys fit. -/
structure Bounded (s : Controls) : Prop extends Sane s where
  producer_le : s.producerSleepTime ≤ 214748364
  inkling_le : s.inklingSleepTime ≤ 2147483646

theorem bounded_initial : Bounded initial := ⟨⟨by decide, by decide⟩, by decide, by decide⟩

section
variable {s s' : Controls}

theorem slowdownProducers_bounded (hs : Bounded s) (hfits : s.producerSleepTime ≤ 178956970) :
    ∃ s', slowdownProducers s = .ok s' ∧ Bounded s' := by
  have hlo : 30000 < s.producerSleepTime := hs.producer
  have hproduct : int (12 * s.producerSleepTime) = .ok (12 * s.producerSleepTime) :=
    int_eq (by omega) (by omega)
  have hdiv : (12 * s.producerSleepTime).tdiv 10 = 12 * s.producerSleepTime / 10 :=
    Int.tdiv_eq_ediv_of_nonneg (by omega)
  have hmin : minSleepTime < (12 * s.producerSleepTime).tdiv 10 := by
    rw [minSleepTime, hdiv]
    omega
  refine ⟨{ s with producerSleepTime := (12 * s.producerSleepTime).tdiv 10 }, ?_,
    ⟨hmin, hs.inkling⟩, ?_, hs.inkling_le⟩
  · rw [slowdownProducers, hproduct, ok_bind]
  · show (12 * s.producerSleepTime).tdiv 10 ≤ 214748364
    rw [hdiv]
    omega

theorem speedupProducers_bounded (hs : Bounded s) :
    ∃ s', speedupProducers s = .ok s' ∧ Bounded s' := by
  have hlo : 30000 < s.producerSleepTime := hs.producer
  have hhi := hs.producer_le
  have hproduct : int (8 * s.producerSleepTime) = .ok (8 * s.producerSleepTime) :=
    int_eq (by omega) (by omega)
  rw [speedupProducers, hproduct, ok_bind]
  by_cases hmin : (8 * s.producerSleepTime).tdiv 10 > minSleepTime
  · have hdiv : (8 * s.producerSleepTime).tdiv 10 = 8 * s.producerSleepTime / 10 :=
      Int.tdiv_eq_ediv_of_nonneg (by omega)
    have hle : (8 * s.producerSleepTime).tdiv 10 ≤ 214748364 := by
      rw [hdiv]
      omega
    simp [hmin]
    exact ⟨⟨hmin, hs.inkling⟩, hle, hs.inkling_le⟩
  · simp [hmin, hs]

theorem speedupInklings_bounded (hs : Bounded s) :
    ∃ s', speedupInklings s = .ok s' ∧ Bounded s' := by
  have hlo := hs.inkling
  have hhi := hs.inkling_le
  have hsum : int (s.inklingSleepTime - 100000) = .ok (s.inklingSleepTime - 100000) :=
    int_eq (by omega) (by omega)
  rw [speedupInklings, hsum, ok_bind, ok_bind]
  by_cases hpos : s.inklingSleepTime - 100000 > 0
  · have hle : s.inklingSleepTime - 100000 ≤ 2147483646 := by omega
    rw [if_pos hpos]
    exact ⟨_, rfl, ⟨hs.producer, hpos⟩, hs.producer_le, hle⟩
  · rw [if_neg hpos]
    exact ⟨s, rfl, hs⟩

theorem slowdownInklings_bounded (hs : Bounded s) (hfits : s.inklingSleepTime ≤ 2147383647) :
    ∃ s', slowdownInklings s = .ok s' ∧ Bounded s' := by
  have hlo := hs.inkling
  have hsum : int (s.inklingSleepTime + 100000) = .ok (s.inklingSleepTime + 100000) :=
    int_eq (by omega) (by omega)
  rw [slowdownInklings, hsum, ok_bind, ok_bind]
  by_cases hmax : s.inklingSleepTime + 100000 < 2147483647
  · have hpos : 0 < s.inklingSleepTime + 100000 := by omega
    rw [if_pos hmax]
    exact ⟨_, rfl, ⟨hs.producer, hpos⟩, hs.producer_le, Int.le_sub_one_of_lt hmax⟩
  · rw [if_neg hmax]
    exact ⟨s, rfl, hs⟩

theorem press_bounded (hs : Bounded s) {c : Command} (hfits : Fits s c) :
    ∃ s', press s c = .ok s' ∧ Bounded s' := by
  cases c with
  | slowerProducers => exact slowdownProducers_bounded hs hfits
  | fasterProducers => exact speedupProducers_bounded hs
  | fasterInklings => exact speedupInklings_bounded hs
  | slowerInklings => exact slowdownInklings_bounded hs hfits

theorem press_fits {c : Command} (h : press s c = .ok s') : Fits s c := by
  cases c with
  | slowerProducers =>
    obtain ⟨product, hproduct, -⟩ := bind_eq_ok (show slowdownProducers s = .ok s' from h)
    have hlt := int_ok hproduct
    show s.producerSleepTime ≤ 178956970
    omega
  | fasterProducers => trivial
  | fasterInklings => trivial
  | slowerInklings =>
    obtain ⟨sum, hsum, -⟩ := bind_eq_ok (show slowdownInklings s = .ok s' from h)
    have hlt := int_ok hsum
    show s.inklingSleepTime ≤ 2147383647
    omega

theorem presses_snoc (commands : List Command) (c : Command) :
    presses s (commands ++ [c]) = presses s commands >>= fun s' => press s' c := by
  rw [presses, List.foldlM_append]
  congr 1
  funext s'
  simp

end

/-- Each `<` comes at a sleep time of at most 178956970 and each `-` at one of at most
2147383647. -/
def AllFit (commands : List Command) : Prop :=
  ∀ pre c s, pre ++ [c] <+: commands → presses initial pre = .ok s → Fits s c

theorem presses_bounded {commands : List Command} (hfit : AllFit commands) (pre : List Command)
    (hpre : pre <+: commands) :
    ∃ s, presses initial pre = .ok s ∧ Bounded s := by
  induction pre using List.reverseRecOn with
  | nil => exact ⟨initial, rfl, bounded_initial⟩
  | append_singleton pre c ih =>
    obtain ⟨s, hrun, hs⟩ := ih ((List.prefix_append pre [c]).trans hpre)
    obtain ⟨s', hstep, hs'⟩ := press_bounded hs (hfit pre c s hpre hrun)
    refine ⟨s', ?_, hs'⟩
    rw [presses_snoc, hrun, ok_bind, hstep]

theorem allFit_of_staysSane {commands : List Command} (h : StaysSane commands) :
    AllFit commands := by
  intro pre c s hpre hrun
  obtain ⟨s', hrun', -⟩ := h (pre ++ [c]) hpre
  rw [presses_snoc, hrun, ok_bind] at hrun'
  exact press_fits hrun'

theorem speedControls_iff (commands : List Command) : StaysSane commands ↔ AllFit commands := by
  constructor
  · exact allFit_of_staysSane
  · intro hfit pre hpre
    obtain ⟨s, hrun, hs⟩ := presses_bounded hfit pre hpre
    exact ⟨s, hrun, hs.toSane⟩

/-- The product overflows at the forty-third `<`. -/
theorem speedControls_overflow : ¬ StaysSane (List.replicate 43 .slowerProducers) := by
  intro h
  obtain ⟨s, hrun, -⟩ := h _ List.prefix_rfl
  have hstop : presses initial (List.replicate 43 .slowerProducers) = .error .overflow := rfl
  rw [hstop] at hrun
  cases hrun

end Csc412.Stencil
