import Mathlib.Data.List.Induction

/-!
# Runs of a labelled transition relation

A run is grown at its end, so a property of every run is proved by looking at
the last step. `Run.split` cuts a run at a position of its trace and
`Run.invariant` carries a state predicate from the start of a run to its end.
-/

namespace Lib

variable {σ ε : Type*} {step : σ → ε → σ → Prop}

/-- `Run step s es t`: the events `es`, oldest first, lead from `s` to `t`. -/
inductive Run (step : σ → ε → σ → Prop) (s : σ) : List ε → σ → Prop
  | nil : Run step s [] s
  | snoc {es t e u} : Run step s es t → step t e u → Run step s (es ++ [e]) u

namespace Run

theorem invariant {I : σ → Prop} (hstep : ∀ {t e u}, I t → step t e u → I u) {s t : σ} {es : List ε}
    (h0 : I s) (h : Run step s es t) : I t := by
  induction h with
  | nil => exact h0
  | snoc _ hs ih => exact hstep ih hs

theorem single {s t : σ} {e : ε} (h : step s e t) : Run step s [e] t := by
  simpa using Run.snoc Run.nil h

theorem append {s t u : σ} {es fs : List ε} (h₁ : Run step s es t) (h₂ : Run step t fs u) :
    Run step s (es ++ fs) u := by
  induction h₂ with
  | nil => simpa using h₁
  | snoc _ hs ih => rw [← List.append_assoc]; exact ih.snoc hs

theorem cons {s t u : σ} {e : ε} {es : List ε} (h₁ : step s e t) (h₂ : Run step t es u) :
    Run step s (e :: es) u := (single h₁).append h₂

theorem nil_inv {s t : σ} (h : Run step s [] t) : t = s := by
  generalize he : ([] : List ε) = es at h
  cases h with
  | nil => rfl
  | snoc => simp at he

theorem snoc_inv {s u : σ} {es : List ε} {e : ε} (h : Run step s (es ++ [e]) u) :
    ∃ t, Run step s es t ∧ step t e u := by
  generalize he : es ++ [e] = fs at h
  cases h with
  | nil => simp at he
  | snoc hr hs =>
    obtain ⟨rfl, h⟩ := List.append_inj' he rfl
    simp only [List.cons.injEq, and_true] at h
    subst h
    exact ⟨_, hr, hs⟩

/-- A run whose trace is a concatenation passes through a state at the seam. -/
theorem split {s u : σ} {es fs : List ε} (h : Run step s (es ++ fs) u) :
    ∃ t, Run step s es t ∧ Run step t fs u := by
  induction fs using List.reverseRecOn generalizing u with
  | nil => exact ⟨u, by simpa using h, .nil⟩
  | append_singleton fs e ih =>
    rw [← List.append_assoc] at h
    obtain ⟨v, hv, hs⟩ := snoc_inv h
    obtain ⟨t, ht, hf⟩ := ih hv
    exact ⟨t, ht, hf.snoc hs⟩

theorem cons_inv {s u : σ} {e : ε} {es : List ε} (h : Run step s (e :: es) u) :
    ∃ t, step s e t ∧ Run step t es u := by
  have h' : Run step s ([e] ++ es) u := h
  obtain ⟨t, ht, hr⟩ := split h'
  have ht' : Run step s ([] ++ [e]) t := ht
  obtain ⟨v, hv, hs⟩ := snoc_inv ht'
  exact ⟨t, nil_inv hv ▸ hs, hr⟩

theorem of_foldlM {f : σ → ε → Option σ} {s t : σ} {es : List ε} (h : es.foldlM f s = some t) :
    Run (fun a e b => f a e = some b) s es t := by
  induction es generalizing s with
  | nil =>
    simp only [List.foldlM_nil, Option.pure_def, Option.some.injEq] at h
    exact h ▸ .nil
  | cons e es ih =>
    rw [List.foldlM_cons, Option.bind_eq_bind, Option.bind_eq_some_iff] at h
    obtain ⟨u, hu, h⟩ := h
    exact cons hu (ih h)

/-- A run all of whose events satisfy `P` where they happen. -/
theorem strengthen {P : σ → ε → Prop} {s t : σ} {es : List ε} (h : Run step s es t)
    (hP : ∀ a, ∀ e ∈ es, P a e) :
    Run (fun a e b => step a e b ∧ P a e) s es t := by
  induction h with
  | nil => exact .nil
  | @snoc es t e u _ hs ih =>
    have hes : ∀ a, ∀ e' ∈ es, P a e' := fun a e' he' => hP a e' (List.mem_append_left _ he')
    exact (ih hes).snoc ⟨hs, hP t e (by simp)⟩

theorem functional (hfun : ∀ s e t₁ t₂, step s e t₁ → step s e t₂ → t₁ = t₂) {s t u : σ}
    {es : List ε} (h₁ : Run step s es t) (h₂ : Run step s es u) : t = u := by
  induction h₁ generalizing u with
  | nil => exact (nil_inv h₂).symm
  | snoc _ hs ih =>
    obtain ⟨v, hv, hs'⟩ := snoc_inv h₂
    rw [ih hv] at hs
    exact hfun _ _ _ _ hs hs'

theorem decorate {δ : Type*} (f : σ → ε → δ) {s t : σ} {es : List ε} (h : Run step s es t) :
    ∃ ds : List (ε × δ), ds.map Prod.fst = es ∧
    Run (fun a d b => step a d.1 b ∧ d.2 = f a d.1) s ds t := by
  induction h with
  | nil => exact ⟨[], rfl, .nil⟩
  | @snoc es t e u _ hs ih =>
    obtain ⟨ds, hds, hr⟩ := ih
    exact ⟨ds ++ [(e, f t e)], by simp [hds], hr.snoc ⟨hs, rfl⟩⟩

/-- A part of the state whose own steps are some of the events has a run of its own. -/
theorem project {τ δ : Type*} {step' : τ → δ → τ → Prop} (π : σ → τ) (g : ε → Option δ)
    (hsim : ∀ {s e t}, step s e t → g e = none ∧ π t = π s ∨ ∃ d, g e = some d ∧
      step' (π s) d (π t))
    {s t : σ} {es : List ε} (h : Run step s es t) : Run step' (π s) (es.filterMap g) (π t) := by
  induction h with
  | nil => exact .nil
  | @snoc es t e u _ hs ih =>
    rw [List.filterMap_append]
    rcases hsim hs with ⟨hg, he⟩ | ⟨d, hg, hd⟩
    · simpa [hg, he] using ih
    · simpa [hg] using ih.snoc hd

section
variable (hdet : ∀ s e₁ e₂ t₁ t₂, step s e₁ t₁ → step s e₂ t₂ → e₁ = e₂ ∧ t₁ = t₂)
include hdet

theorem det {s t u : σ} {es : List ε} (h₁ : Run step s es t) (h₂ : Run step s es u) : t = u :=
  functional (fun s e t₁ t₂ h h' => (hdet s e e t₁ t₂ h h').2) h₁ h₂

/-- A deterministic system has one maximal run: every run is a prefix of it. -/
theorem isPrefix_of_final {s t u : σ} {es fs : List ε} (h : Run step s es t)
    (hfin : ∀ e v, ¬ step t e v) (h' : Run step s fs u) : fs <+: es := by
  induction h' with
  | nil => exact List.nil_prefix
  | snoc hr hs ih =>
    obtain ⟨gs, rfl⟩ := ih
    obtain ⟨v, hv, hg⟩ := h.split
    rw [hr.det hdet hv] at hs
    cases gs with
    | nil => rw [← nil_inv hg] at hs; exact absurd hs (hfin _ _)
    | cons g gs =>
      obtain ⟨w, hw, -⟩ := hg.cons_inv
      rw [(hdet _ _ _ _ _ hs hw).1]
      exact ⟨gs, by simp⟩

end

end Run

end Lib
