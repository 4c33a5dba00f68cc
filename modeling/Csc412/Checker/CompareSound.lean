import Csc412.Checker.Expect

/-!
# What the checker accepts

An output that passes has the expected lines, in their order or, with `UNORDERED`, in
any order, and other lines only where `//! ???` allows them. The checker takes a line
for the first expected line that it fits and never takes that back, so the converse
needs that no other choice could be the better one.
-/

namespace Csc412.Checker

section
variable {R C : Type} (compare : C → String → R → Option C)

/-! ## Expected outputs -/

/-- The lines that count. -/
def printed (exp : Expected R) (actual : List String) : List String :=
  actual.filter fun x => !(asanWarning x && exp.allowAsanWarning)

/-- The expected lines `es` in their order, with gaps only before lines that have `skip`,
and at the end if `last` holds. -/
def Aligned (last : Bool) : C → List (ExpLine R) → List String → Prop
  | _, [], xs => xs = [] ∨ last = true
  | c, e :: es, xs => ∃ gap x rest c', xs = gap ++ x :: rest ∧ (gap = [] ∨ e.skip = true) ∧
      compare c x e.r = some c' ∧ Aligned last c' es rest

/-- Each line of a pair fits the expected line in it. -/
def Fits (c : C) (pairs : List (String × ExpLine R)) : Prop :=
  (pairs.foldlM (fun c p => compare c p.1 p.2.r) c).isSome = true

/-- Some of the lines, and the expected lines in any order, fit one another. -/
def Covers (exp : Expected R) (c : C) (es : List (ExpLine R)) (xs : List String) : Prop :=
  ∃ pairs : List (String × ExpLine R), (pairs.map Prod.snd).Perm es ∧
    (pairs.map Prod.fst).Sublist xs ∧ Fits compare c pairs ∧
    (exp.skip = false → (∀ e ∈ es, e.skip = false) → pairs.map Prod.fst = xs)

/-- No expected line names a chunk. -/
def Unnamed : Prop := ∀ c x r c', compare c x r = some c' → c' = c

/-- Once `//! ???` stands before a line, it stands before all that follow and at the end. -/
def Open (last : Bool) (es : List (ExpLine R)) : Prop :=
  (es.Pairwise fun e e' => e.skip = true → e'.skip = true) ∧ ∀ e ∈ es, e.skip = true → last = true

/-- Expected lines that one line fits are fitted by the same lines. -/
def Unambiguous (c : C) (es : List (ExpLine R)) : Prop :=
  ∀ e ∈ es, ∀ e' ∈ es, ∀ x, (compare c x e.r).isSome → (compare c x e'.r).isSome → ∀ y,
    compare c y e.r = compare c y e'.r

variable {compare} {exp : Expected R} {a : Nat} {c c' : C} {x : String} {xs : List String}
    {e : ExpLine R} {es rest : List (ExpLine R)}

/-! ## One line -/

theorem pick_ordered :
    pick compare false c x (e :: es) = (compare c x e.r).map fun c' => (c', es) := by
  rw [pick]
  cases compare c x e.r <;> rfl

theorem pick_some {unordered : Bool} (h : pick compare unordered c x es = some (c', rest)) :
    ∃ e, compare c x e.r = some c' ∧ es.Perm (e :: rest) := by
  induction es generalizing rest with
  | nil => cases h
  | cons e es ih =>
    rw [pick] at h
    split at h
    · rename_i c'' hc
      cases h
      exact ⟨e, hc, .refl _⟩
    · split at h
      · obtain ⟨⟨c'', rest'⟩, hp, heq⟩ := Option.map_eq_some_iff.mp h
        cases heq
        obtain ⟨e', hc, hperm⟩ := ih hp
        exact ⟨e', hc, (hperm.cons e).trans (.swap ..)⟩
      · cases h

theorem pick_of_mem (he : e ∈ es) (hc : (compare c x e.r).isSome) :
    (pick compare true c x es).isSome := by
  induction es with
  | nil => cases he
  | cons e' es ih =>
    rw [pick]
    split
    · rfl
    · rename_i hnone
      rcases List.mem_cons.mp he with rfl | he
      · rw [hnone] at hc
        cases hc
      · simpa using ih he

theorem compareFrom_cons : compareFrom compare exp a c es (x :: xs) =
    if asanWarning x ∧ exp.allowAsanWarning then compareFrom compare exp (a + 1) c es xs
    else
      match es with
      | [] => if exp.skip then compareFrom compare exp (a + 1) c [] xs else .tooMuch (a + 1)
      | e :: es =>
        match pick compare exp.unordered c x (e :: es) with
        | some (c, rest) => compareFrom compare exp (a + 1) c rest xs
        | none =>
          if e.skip then compareFrom compare exp (a + 1) c (e :: es) xs
          else .unexpected (a + 1) e.line := by
  cases es <;> rfl

/-! ## What is accepted -/

theorem printed_cons : printed exp (x :: xs) =
    if asanWarning x ∧ exp.allowAsanWarning then printed exp xs else x :: printed exp xs := by
  rw [printed, List.filter_cons]
  by_cases h : asanWarning x = true ∧ exp.allowAsanWarning = true
  · simp [printed, h]
  · have hkeep : (!(asanWarning x && exp.allowAsanWarning)) = true := by
      rw [Bool.not_eq_true', Bool.and_eq_false_iff, ← Bool.not_eq_true, ← Bool.not_eq_true]
      exact not_and_or.mp h
    rw [if_neg h, if_pos hkeep]
    rfl

theorem Aligned.gap (hskip : e.skip = true) (h : Aligned compare exp.skip c (e :: es) xs) :
    Aligned compare exp.skip c (e :: es) (x :: xs) := by
  obtain ⟨gap, y, rest, c', rfl, -, hc, hrest⟩ := h
  exact ⟨x :: gap, y, rest, c', rfl, .inr hskip, hc, hrest⟩

theorem compare_aligned (ho : exp.unordered = false) (h : compareFrom compare exp a c es xs = .ok) :
    Aligned compare exp.skip c es (printed exp xs) := by
  induction xs generalizing a c es with
  | nil =>
    cases es with
    | nil => exact .inl rfl
    | cons e es => cases h
  | cons x xs ih =>
    rw [compareFrom_cons] at h
    rw [printed_cons]
    split at h
    · rename_i hasan
      rw [if_pos hasan]
      exact ih h
    · rename_i hasan
      rw [if_neg hasan]
      cases es with
      | nil =>
        simp only at h
        split at h
        · rename_i hskip
          exact .inr hskip
        · cases h
      | cons e es =>
        simp only [ho, pick_ordered] at h
        cases hc : compare c x e.r with
        | some c' =>
          rw [hc] at h
          exact ⟨[], x, _, c', rfl, .inl rfl, hc, ih h⟩
        | none =>
          rw [hc] at h
          simp only [Option.map_none] at h
          split at h
          · rename_i hskip
            exact (ih h).gap hskip
          · cases h

theorem compare_covers (h : compareFrom compare exp a c es xs = .ok) :
    Covers compare exp c es (printed exp xs) := by
  induction xs generalizing a c es with
  | nil =>
    cases es with
    | nil => exact ⟨[], .refl _, .refl _, rfl, fun _ _ => rfl⟩
    | cons e es => cases h
  | cons x xs ih =>
    rw [compareFrom_cons] at h
    rw [printed_cons]
    split at h
    · rename_i hasan
      rw [if_pos hasan]
      exact ih h
    · rename_i hasan
      rw [if_neg hasan]
      cases es with
      | nil =>
        simp only at h
        split at h
        · rename_i hskip
          obtain ⟨pairs, hperm, hsub, hfits, -⟩ := ih h
          exact ⟨pairs, hperm, hsub.cons x, hfits, fun hno => by simp [hskip] at hno⟩
        · cases h
      | cons e es =>
        simp only at h
        split at h
        · rename_i c' rest hpick
          obtain ⟨e', hc, hrest⟩ := pick_some hpick
          obtain ⟨pairs, hperm, hsub, hfits, hall⟩ := ih h
          refine ⟨(x, e') :: pairs, (hperm.cons e').trans hrest.symm, hsub.cons_cons x, ?_,
            fun hno hskip => ?_⟩
          · rw [Fits, List.foldlM_cons]
            simp only [hc]
            exact hfits
          · rw [List.map_cons, hall hno
              fun e he => hskip e (hrest.mem_iff.mpr (List.mem_cons_of_mem _ he))]
        · split at h
          · rename_i hskip
            obtain ⟨pairs, hperm, hsub, hfits, -⟩ := ih h
            refine ⟨pairs, hperm, hsub.cons x, hfits, fun _ hno => ?_⟩
            rw [hno e List.mem_cons_self] at hskip
            cases hskip
          · cases h

/-! ## What is not rejected -/

theorem Aligned.prepend (gap : List String) (h : Aligned compare exp.skip c es xs)
    (hopen : exp.skip = true ∧ ∀ e ∈ es, e.skip = true) :
    Aligned compare exp.skip c es (gap ++ xs) := by
  cases es with
  | nil => exact .inr hopen.1
  | cons e es =>
    obtain ⟨gap', y, rest, c', rfl, -, hc, hrest⟩ := h
    exact ⟨gap ++ gap', y, rest, c', (List.append_assoc ..).symm,
      .inr (hopen.2 e List.mem_cons_self), hc, hrest⟩

theorem compare_of_aligned (ho : exp.unordered = false) (hu : Unnamed compare)
    (hopen : Open exp.skip es) (h : Aligned compare exp.skip c es (printed exp xs)) :
    compareFrom compare exp a c es xs = .ok := by
  induction xs generalizing a es with
  | nil =>
    cases es with
    | nil => rfl
    | cons e es =>
      obtain ⟨gap, y, rest, c', hnil, -⟩ := h
      simp [printed] at hnil
  | cons x xs ih =>
    rw [compareFrom_cons]
    rw [printed_cons] at h
    split at h
    · rename_i hasan
      rw [if_pos hasan]
      exact ih hopen h
    · rename_i hasan
      rw [if_neg hasan]
      cases es with
      | nil =>
        have hskip : exp.skip = true := h.resolve_left (List.cons_ne_nil _ _)
        simp only [hskip, if_true]
        exact ih hopen (.inr hskip)
      | cons e es =>
        obtain ⟨hpair, hlast⟩ := hopen
        obtain ⟨hhead, htail⟩ := List.pairwise_cons.mp hpair
        have hopen' : Open exp.skip es :=
          ⟨htail, fun e' he' => hlast e' (List.mem_cons_of_mem _ he')⟩
        obtain ⟨gap, y, rest, c', hxs, hgap, hc, hrest⟩ := h
        obtain rfl := hu _ _ _ _ hc
        simp only [ho, pick_ordered]
        cases gap with
        | nil =>
          cases hxs
          rw [hc]
          exact ih hopen' hrest
        | cons x' gap =>
          obtain ⟨rfl, hrestx⟩ := List.cons.inj hxs
          replace hrestx : printed exp xs = gap ++ y :: rest := hrestx
          have hskip : e.skip = true := hgap.resolve_left (List.cons_ne_nil _ _)
          cases hcx : compare c' x e.r with
          | some c'' =>
            -- the checker takes `x` for `e`, which leaves `y` as one more line of a gap
            obtain rfl := hu _ _ _ _ hcx
            refine ih hopen' ?_
            rw [hrestx, List.append_cons]
            exact hrest.prepend _ ⟨hlast e List.mem_cons_self hskip,
              fun e' he' => hhead e' he' hskip⟩
          | none =>
            simp only [Option.map_none, hskip, if_true]
            exact ih ⟨hpair, hlast⟩ ⟨gap, y, rest, c', hrestx, .inr hskip, hc, hrest⟩

theorem fits_iff (hu : Unnamed compare) {pairs : List (String × ExpLine R)} :
    Fits compare c pairs ↔ ∀ p ∈ pairs, (compare c p.1 p.2.r).isSome := by
  induction pairs with
  | nil => simp [Fits]
  | cons p pairs ih =>
    rw [Fits, List.foldlM_cons, List.forall_mem_cons, ← ih]
    cases hc : compare c p.1 p.2.r with
    | none => simp
    | some c' =>
      obtain rfl := hu _ _ _ _ hc
      simp [Fits]

theorem Unambiguous.perm {es' : List (ExpLine R)} (h : Unambiguous compare c es)
    (hsub : ∀ e ∈ es', e ∈ es) :
    Unambiguous compare c es' := fun e he e' he' => h e (hsub e he) e' (hsub e' he')

/-- The pairs without one expected line that `x` fits. -/
theorem exchange {pairs : List (String × ExpLine R)} {e₀ : ExpLine R}
    (hamb : Unambiguous compare c es) (hperm : (((x, e) :: pairs).map Prod.snd).Perm es)
    (hfit : ∀ p ∈ (x, e) :: pairs, (compare c p.1 p.2.r).isSome) (he₀ : (compare c x e₀.r).isSome)
    (hrest : es.Perm (e₀ :: rest)) :
    ∃ pairs' : List (String × ExpLine R), (pairs'.map Prod.snd).Perm rest ∧
    pairs'.map Prod.fst = pairs.map Prod.fst ∧
      ∀ p ∈ pairs', (compare c p.1 p.2.r).isSome := by
  obtain ⟨hfirst, hothers⟩ := List.forall_mem_cons.mp hfit
  have hcons : (e :: pairs.map Prod.snd).Perm (e₀ :: rest) := hperm.trans hrest
  by_cases heq : e₀ = e
  · subst heq
    exact ⟨pairs, hcons.cons_inv, rfl, hothers⟩
  · have hmem : e₀ ∈ pairs.map Prod.snd :=
      (List.mem_cons.mp (hcons.mem_iff.mpr List.mem_cons_self)).resolve_left heq
    obtain ⟨⟨y, e₁⟩, hp, rfl⟩ := List.mem_map.mp hmem
    obtain ⟨ps, qs, rfl⟩ := List.append_of_mem hp
    refine ⟨ps ++ (y, e) :: qs, ?_, by simp, fun p hp' => ?_⟩
    · rw [List.map_append, List.map_cons] at hcons ⊢
      have hmiddle : (e :: (ps.map Prod.snd ++ e₁ :: qs.map Prod.snd)).Perm
          (e₁ :: (ps.map Prod.snd ++ e :: qs.map Prod.snd)) := by
        refine (List.perm_middle.cons e).trans ((List.Perm.swap ..).trans ?_)
        exact List.perm_middle.symm.cons e₁
      exact (hmiddle.symm.trans hcons).cons_inv
    · rcases List.mem_append.mp hp' with hp' | hp'
      · exact hothers p (List.mem_append_left _ hp')
      · rcases List.mem_cons.mp hp' with rfl | hp'
        · have hy := hothers (y, e₁) (List.mem_append_right _ List.mem_cons_self)
          have he : e ∈ es := hperm.mem_iff.mp (by simp)
          have he₁ : e₁ ∈ es := hrest.mem_iff.mpr List.mem_cons_self
          show (compare c y e.r).isSome
          rw [hamb e he e₁ he₁ x hfirst he₀ y]
          exact hy
        · exact hothers p (List.mem_append_right _ (List.mem_cons_of_mem _ hp'))

theorem compare_of_covers (ho : exp.unordered = true) (hu : Unnamed compare)
    (hamb : Unambiguous compare c es) {pairs : List (String × ExpLine R)}
    (hperm : (pairs.map Prod.snd).Perm es) (hall : pairs.map Prod.fst = printed exp xs)
    (hfit : ∀ p ∈ pairs, (compare c p.1 p.2.r).isSome) :
    compareFrom compare exp a c es xs = .ok := by
  induction xs generalizing a es pairs with
  | nil =>
    obtain rfl : pairs = [] := by simpa [printed] using hall
    obtain rfl : es = [] := hperm.symm.eq_nil
    rfl
  | cons x xs ih =>
    rw [compareFrom_cons]
    rw [printed_cons] at hall
    split at hall
    · rename_i hasan
      rw [if_pos hasan]
      exact ih hamb hperm hall hfit
    · rename_i hasan
      rw [if_neg hasan]
      obtain ⟨⟨x', e⟩, pairs, rfl, rfl, htail⟩ := List.map_eq_cons_iff.mp hall
      have he : e ∈ es := hperm.mem_iff.mp (by simp)
      have hfirst : (compare c x' e.r).isSome := hfit (x', e) List.mem_cons_self
      obtain ⟨⟨c', rest⟩, hpick⟩ := Option.isSome_iff_exists.mp (pick_of_mem he hfirst)
      obtain ⟨e₀, hc, hrest⟩ := pick_some hpick
      obtain rfl := hu _ _ _ _ hc
      obtain ⟨pairs', hperm', hfst, hfit'⟩ := exchange hamb hperm hfit (by simp [hc]) hrest
      cases es with
      | nil => cases he
      | cons e' es =>
        simp only [ho, hpick]
        exact ih (hamb.perm fun e he => hrest.mem_iff.mpr (List.mem_cons_of_mem _ he)) hperm'
          (hfst.trans htail) hfit'

/-! ## The verdict -/

variable (compare)

structure Compares (chunks : C) (exp : Expected R) (actual : List String) : Prop where
  ordered : exp.unordered = false → runCompare compare chunks exp actual = .ok →
    Aligned compare exp.skip chunks exp.l (printed exp actual)
  unordered : exp.unordered = true → runCompare compare chunks exp actual = .ok →
    Covers compare exp chunks exp.l (printed exp actual)
  ordered_complete : exp.unordered = false → Unnamed compare → Open exp.skip exp.l →
    Aligned compare exp.skip chunks exp.l (printed exp actual) →
    runCompare compare chunks exp actual = .ok
  unordered_complete : exp.unordered = true → Unnamed compare → exp.skip = false →
    (∀ e ∈ exp.l, e.skip = false) →
    Unambiguous compare chunks exp.l → Covers compare exp chunks exp.l (printed exp actual) →
    runCompare compare chunks exp actual = .ok

/-- Without `Open`, the first of two lines that fit may be the wrong one. -/
example : runCompare (fun c x (r : String) => if x = r then some c else none) ()
    ⟨[⟨2, true, "free"⟩, ⟨3, false, "done"⟩], false, false, false⟩ ["free", "free", "done"] =
        .unexpected 2 3 := by
  decide

end

end Csc412.Checker
