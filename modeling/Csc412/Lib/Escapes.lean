import Mathlib.Data.List.Basic

/-!
# Escaped texts

A text of tokens. A token is written as what it stands for, or it is an escape: a mark and
some more, for one or more characters of which the mark is none or the only one. Then a
text stands for itself only if there is no escape in it (`text_eq_read_iff`): an escape makes
what follows it appear too early, and no later token makes up for that.
-/

namespace Lib.Escapes

/-- How a token is written and what it stands for. -/
inductive Written {α : Type} (mark : α) : List α → List α → Prop
  | plain {s : List α} : mark ∉ s → Written mark s s
  | escape {rest value : List α} : rest ≠ [] → value ≠ [] → (mark ∈ value → value = [mark]) →
    Written mark (mark :: rest) value

structure Escaping (τ α : Type) (mark : α) where
  raw : τ → List α
  value : τ → List α
  written : ∀ t, Written mark (raw t) (value t)

namespace Escaping
variable {τ α : Type} {mark : α} (E : Escaping τ α mark)

def text (ts : List τ) : List α := ts.flatMap E.raw

def read (ts : List τ) : List α := ts.flatMap E.value

theorem text_cons (t : τ) (ts : List τ) : E.text (t :: ts) = E.raw t ++ E.text ts :=
  List.flatMap_cons

theorem read_cons (t : τ) (ts : List τ) : E.read (t :: ts) = E.value t ++ E.read ts :=
  List.flatMap_cons

/-- A token is not read as something longer that ends with it. -/
theorem value_ne {y : List α} (hy : y ≠ []) (t : τ) (z : List α) :
    E.value t ≠ y ++ E.raw t ++ z := by
  have hpos := List.length_pos_iff.mpr hy
  have hwritten := E.written t
  generalize E.raw t = raw at hwritten
  generalize E.value t = value at hwritten
  intro h
  cases hwritten with
  | plain _ =>
    have hlen := congrArg List.length h
    simp only [List.length_append] at hlen
    omega
  | escape _ _ hmark =>
    have hone := hmark (by rw [h]; simp)
    have hlen := congrArg List.length (hone.symm.trans h)
    simp only [List.length_append, List.length_cons, List.length_nil] at hlen
    omega

/-- What is read never lags behind the text. -/
theorem read_ne {y : List α} (hy : y ≠ []) (ts : List τ) : E.read ts ≠ y ++ E.text ts := by
  induction ts generalizing y with
  | nil =>
    intro h
    exact hy (List.append_eq_nil_iff.mp h.symm).1
  | cons t ts ih =>
    intro h
    rw [read_cons, text_cons, ← List.append_assoc] at h
    obtain ⟨z, hraw, hrest⟩ | ⟨z, hvalue, hrest⟩ := List.append_eq_append_iff.mp h
    · by_cases hz : z = []
      · refine E.value_ne hy t [] ?_
        rw [hraw, hz, List.append_nil, List.append_nil]
      · exact ih hz hrest
    · exact E.value_ne hy t z hvalue

theorem text_eq_read_iff (ts : List τ) : E.text ts = E.read ts ↔ mark ∉ E.text ts := by
  induction ts with
  | nil => exact iff_of_true rfl List.not_mem_nil
  | cons t ts ih =>
    have hwritten := E.written t
    rw [text_cons, read_cons]
    generalize E.raw t = raw at hwritten
    generalize E.value t = value at hwritten
    cases hwritten with
    | plain hmark =>
      rw [List.append_cancel_left_eq, ih, List.mem_append, not_or, and_iff_right hmark]
    | @escape rest value hrest hvalue hmark =>
      refine iff_of_false ?_ (by simp)
      intro h
      obtain ⟨c, value, rfl⟩ := List.exists_cons_of_ne_nil hvalue
      rw [List.cons_append, List.cons_append, List.cons.injEq] at h
      obtain ⟨rfl, h⟩ := h
      have hone : value = [] := (List.cons.inj (hmark List.mem_cons_self)).2
      rw [hone, List.nil_append] at h
      exact E.read_ne hrest ts h.symm

end Escaping

end Lib.Escapes
