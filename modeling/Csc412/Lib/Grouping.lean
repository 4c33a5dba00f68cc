import Mathlib.Data.List.TakeWhile

/-!
# Runs of equal keys

A list in the order of its keys falls into runs of equal keys. There is one for each key,
in increasing order, and it holds everything with that key.
-/

namespace Lib

section
variable {α κ : Type*} [DecidableEq κ] (key : α → κ)

/-- The runs of equal keys, each with its key. -/
def groups : List α → List (κ × List α)
  | [] => []
  | a :: l => (key a, a :: l.takeWhile (key · = key a)) :: groups (l.dropWhile (key · = key a))
termination_by l => l.length
decreasing_by exact Nat.lt_succ_of_le (List.dropWhile_sublist _).length_le

variable {key}

theorem groups_nil : groups key ([] : List α) = [] := by
  rw [groups]

theorem groups_cons (a : α) (l : List α) : groups key (a :: l) =
    (key a, a :: l.takeWhile (key · = key a)) :: groups key (l.dropWhile (key · = key a)) := by
  rw [groups]

theorem key_of_mem_group {l g : List α} {k : κ} (h : (k, g) ∈ groups key l) :
    ∃ a ∈ l, key a = k := by
  induction l using groups.induct key with
  | case1 =>
    rw [groups_nil] at h
    cases h
  | case2 a l ih =>
    rw [groups_cons, List.mem_cons, Prod.mk.injEq] at h
    rcases h with ⟨hk, -⟩ | h
    · exact ⟨a, List.mem_cons_self, hk.symm⟩
    · obtain ⟨b, hb, hkey⟩ := ih h
      exact ⟨b, List.mem_cons_of_mem _ ((List.dropWhile_sublist _).mem hb), hkey⟩

theorem exists_group {l : List α} {a : α} (ha : a ∈ l) : ∃ g, (key a, g) ∈ groups key l := by
  induction l using groups.induct key with
  | case1 => cases ha
  | case2 b l ih =>
    rw [groups_cons]
    by_cases hkey : key a = key b
    · exact ⟨_, by rw [hkey]; exact List.mem_cons_self⟩
    · obtain rfl | ha := List.mem_cons.mp ha
      · exact absurd rfl hkey
      · rw [← List.takeWhile_append_dropWhile (p := fun c => decide (key c = key b)) (l := l),
          List.mem_append] at ha
        rcases ha with ha | ha
        · exact absurd (by simpa using List.mem_takeWhile_imp ha) hkey
        · obtain ⟨g, hg⟩ := ih ha
          exact ⟨g, List.mem_cons_of_mem _ hg⟩

/-! ## Sorted lists -/

variable {r : κ → κ → Prop} (hanti : ∀ a b, r a b → r b a → a = b)
include hanti

/-- What comes after the first run has other keys. -/
theorem dropWhile_key_ne {a : α} {l : List α} (h : (a :: l).Pairwise fun b c => r (key b) (key c)) :
    ∀ b ∈ l.dropWhile (key · = key a), key b ≠ key a := by
  induction l with
  | nil => simp
  | cons c l ih =>
    obtain ⟨ha, hl⟩ := List.pairwise_cons.mp h
    obtain ⟨hc, hl'⟩ := List.pairwise_cons.mp hl
    intro b hb
    by_cases hca : key c = key a
    · rw [List.dropWhile_cons_of_pos (by simpa using hca)] at hb
      exact ih (List.pairwise_cons.mpr ⟨fun d hd => ha d (List.mem_cons_of_mem _ hd), hl'⟩) b hb
    · rw [List.dropWhile_cons_of_neg (by simpa using hca), List.mem_cons] at hb
      rcases hb with rfl | hb
      · exact hca
      · intro hba
        have hle := hc b hb
        rw [hba] at hle
        exact hca (hanti _ _ hle (ha c List.mem_cons_self))

theorem group_eq_filter {l : List α} (h : l.Pairwise fun b c => r (key b) (key c)) {k : κ}
    {g : List α} (hg : (k, g) ∈ groups key l) : g = l.filter (key · = k) := by
  induction l using groups.induct key with
  | case1 =>
    rw [groups_nil] at hg
    cases hg
  | case2 a l ih =>
    have hrest := dropWhile_key_ne hanti h
    have hsorted := (List.pairwise_cons.mp h).2
    have hrun : ∀ b ∈ l.takeWhile (key · = key a), key b = key a := by
      intro b hb
      simpa using List.mem_takeWhile_imp hb
    have hcut (p : α → Bool) : l.filter p = (l.takeWhile (key · = key a)).filter p ++
        (l.dropWhile (key · = key a)).filter p := by
      rw [← List.filter_append, List.takeWhile_append_dropWhile]
    rw [groups_cons, List.mem_cons, Prod.mk.injEq] at hg
    rcases hg with ⟨rfl, rfl⟩ | hg
    · have hall : (l.takeWhile (key · = key a)).filter (key · = key a) =
          l.takeWhile (key · = key a) :=
        List.filter_eq_self.mpr (by simpa using hrun)
      have hnone : (l.dropWhile (key · = key a)).filter (key · = key a) = [] :=
        List.filter_eq_nil_iff.mpr (by simpa using hrest)
      rw [List.filter_cons_of_pos (by simp), hcut, hall, hnone, List.append_nil]
    · obtain ⟨b, hb, rfl⟩ := key_of_mem_group hg
      have hne := hrest b hb
      have hnone : (l.takeWhile (key · = key a)).filter (key · = key b) = [] := by
        apply List.filter_eq_nil_iff.mpr
        intro c hc
        rw [decide_eq_true_eq, hrun c hc]
        exact hne.symm
      rw [ih (hsorted.sublist (List.dropWhile_sublist _)) hg,
        List.filter_cons_of_neg (by simpa using hne.symm), hcut, hnone, List.nil_append]

theorem groups_increasing {l : List α} (h : l.Pairwise fun b c => r (key b) (key c)) :
    ((groups key l).map Prod.fst).Pairwise fun k k' => r k k' ∧ k ≠ k' := by
  induction l using groups.induct key with
  | case1 =>
    rw [groups_nil]
    exact .nil
  | case2 a l ih =>
    obtain ⟨ha, hl⟩ := List.pairwise_cons.mp h
    rw [groups_cons, List.map_cons, List.pairwise_cons]
    refine ⟨fun k hk => ?_, ih (hl.sublist (List.dropWhile_sublist _))⟩
    obtain ⟨⟨k', g⟩, hg, rfl⟩ := List.mem_map.mp hk
    obtain ⟨b, hb, rfl⟩ := key_of_mem_group hg
    exact ⟨ha b ((List.dropWhile_sublist _).mem hb), (dropWhile_key_ne hanti h b hb).symm⟩

end

end Lib
