import Mathlib.Data.Fintype.Pigeonhole
import Mathlib.Data.List.Lex

/-!
# Depth-first search without marks

A node has a list of items: a child, a goal, or nothing. The search goes through them in
order and into every child, and remembers nothing of where it has been. Positions are lists
of numbers of items, and their lexicographic order is the order of the search. It ends
exactly when every position that leads back to a node on its way comes after a goal.
-/

namespace Lib.DepthFirst

inductive Item (N : Type*) where
  | skip
  | goal
  | child (n : N)

variable {N : Type*}

/-- The items of a node, with the search of a child. `none` is a search that is cut off. -/
def scan (visit : N → Option Bool) : List (Item N) → Option Bool
  | [] => some false
  | .skip :: is => scan visit is
  | .goal :: _ => some true
  | .child n :: is =>
    match visit n with
    | some false => scan visit is
    | r => r

/-- Whether there is a goal, down to the depth `k`. -/
def search (items : N → List (Item N)) : Nat → N → Option Bool
  | 0, _ => none
  | k + 1, n => scan (search items k) (items n)

inductive At (items : N → List (Item N)) : N → List Nat → N → Prop
  | nil (n : N) : At items n [] n
  | cons {n m m' : N} {i : Nat} {p : List Nat} : (items n)[i]? = some (.child m) → At items m p m' →
    At items n (i :: p) m'

inductive Goal (items : N → List (Item N)) : N → List Nat → Prop
  | here {n : N} {i : Nat} : (items n)[i]? = some .goal → Goal items n [i]
  | child {n m : N} {i : Nat} {p : List Nat} : (items n)[i]? = some (.child m) → Goal items m p →
    Goal items n (i :: p)

/-- No goal comes before a position. -/
def Free (items : N → List (Item N)) (n : N) (p : List Nat) : Prop := ∀ g, Goal items n g → ¬ g < p

/-! ## Scanning -/

/-- The search goes on after the item. -/
inductive Passed (visit : N → Option Bool) : Item N → Prop
  | skip : Passed visit .skip
  | child {n : N} : visit n = some false → Passed visit (.child n)

section
variable {visit : N → Option Bool} {is : List (Item N)}

theorem scan_false (h : scan visit is = some false) : ∀ x ∈ is, Passed visit x := by
  induction is with
  | nil => simp
  | cons x is ih =>
    cases x with
    | skip => exact List.forall_mem_cons.mpr ⟨.skip, ih h⟩
    | goal => cases h
    | child n =>
      rw [scan] at h
      cases hn : visit n with
      | none => simp [hn] at h
      | some b =>
        cases b with
        | true => simp [hn] at h
        | false =>
          rw [hn] at h
          exact List.forall_mem_cons.mpr ⟨.child hn, ih h⟩

theorem scan_true (h : scan visit is = some true) : ∃ i, (∀ x ∈ is.take i, Passed visit x) ∧
    (is[i]? = some .goal ∨ ∃ m, is[i]? = some (.child m) ∧ visit m = some true) := by
  induction is with
  | nil => cases h
  | cons x is ih =>
    have hnext : Passed visit x → scan visit is = some true → ∃ i,
      (∀ y ∈ (x :: is).take i, Passed visit y) ∧
        ((x :: is)[i]? = some .goal ∨ ∃ m, (x :: is)[i]? = some (.child m) ∧
            visit m = some true) := by
      intro hx hrest
      obtain ⟨i, hpassed, hitem⟩ := ih hrest
      exact ⟨i + 1, List.forall_mem_cons.mpr ⟨hx, hpassed⟩, hitem⟩
    cases x with
    | skip => exact hnext .skip h
    | goal => exact ⟨0, by simp, .inl rfl⟩
    | child n =>
      rw [scan] at h
      cases hn : visit n with
      | none => simp [hn] at h
      | some b =>
        cases b with
        | true => exact ⟨0, by simp, .inr ⟨n, rfl, hn⟩⟩
        | false =>
          rw [hn] at h
          exact hnext (.child hn) h

theorem scan_mono {visit' : N → Option Bool} (hv : ∀ n b, visit n = some b → visit' n = some b)
    {b : Bool} (h : scan visit is = some b) : scan visit' is = some b := by
  induction is with
  | nil => exact h
  | cons x is ih =>
    cases x with
    | skip => exact ih h
    | goal => exact h
    | child n =>
      rw [scan] at h ⊢
      cases hn : visit n with
      | none => simp [hn] at h
      | some c =>
        rw [hv n c hn]
        cases c with
        | true => simpa [hn] using h
        | false =>
          rw [hn] at h
          exact ih h

end

variable {items : N → List (Item N)} {n m : N} {k k' : Nat} {b : Bool}

theorem search_mono (hk : k ≤ k') (h : search items k n = some b) : search items k' n = some b := by
  induction k generalizing k' n b with
  | zero => cases h
  | succ k ih =>
    obtain ⟨k', rfl⟩ : ∃ j, k' = j + 1 := ⟨k' - 1, by omega⟩
    exact scan_mono (fun m c hm => ih (by omega) hm) h

/-! ## What is found -/

theorem goal_of_search (h : search items k n = some true) : ∃ g, Goal items n g := by
  induction k generalizing n with
  | zero => cases h
  | succ k ih =>
    obtain ⟨i, -, hgoal | ⟨m, hchild, hm⟩⟩ := scan_true h
    · exact ⟨[i], .here hgoal⟩
    · obtain ⟨g, hg⟩ := ih hm
      exact ⟨i :: g, .child hchild hg⟩

theorem no_goal_of_search (h : search items k n = some false) (g : List Nat) :
    ¬ Goal items n g := by
  induction k generalizing n g with
  | zero => cases h
  | succ k ih =>
    have hpassed := scan_false h
    intro hg
    cases hg with
    | here hgoal => cases hpassed _ (List.mem_of_getElem? hgoal)
    | child hchild hg =>
      cases hpassed _ (List.mem_of_getElem? hchild) with
      | child hm => exact ih hm _ hg

theorem search_iff (h : search items k n = some b) : b = true ↔ ∃ g, Goal items n g := by
  cases b with
  | true => exact iff_of_true rfl (goal_of_search h)
  | false => exact iff_of_false Bool.false_ne_true fun ⟨g, hg⟩ => no_goal_of_search h g hg

/-! ## Positions -/

theorem Free.child {i : Nat} {p : List Nat} (h : Free items n (i :: p))
    (hi : (items n)[i]? = some (.child m)) : Free items m p := by
  intro g hg hlt
  exact h (i :: g) (.child hi hg) (List.cons_lt_cons_iff.mpr (.inr ⟨rfl, hlt⟩))

/-- A goal is not first reached through an item that was passed. -/
theorem goal_head {j : Nat} {g : List Nat} (hg : Goal items n (j :: g)) {i : Nat}
    (hpassed : ∀ x ∈ (items n).take i, Passed (search items k) x) : i ≤ j := by
  by_contra hlt
  have hmem : ∀ x, (items n)[j]? = some x → Passed (search items k) x := by
    intro x hx
    apply hpassed
    apply List.mem_of_getElem?
    rw [List.getElem?_take_of_lt (Nat.lt_of_not_le hlt), hx]
  cases hg with
  | here hgoal => cases hmem _ hgoal
  | child hchild hg =>
    cases hmem _ hchild with
    | child hm => exact no_goal_of_search hm _ hg

/-! ## A search that ends -/

/-- It has looked into the child, as no goal stopped it before. -/
theorem search_child (h : search items (k + 1) n = some b) {i : Nat}
    (hi : (items n)[i]? = some (.child m)) {p : List Nat} (hfree : Free items n (i :: p)) :
    ∃ c, search items k m = some c := by
  cases b with
  | false =>
    cases scan_false h _ (List.mem_of_getElem? hi) with
    | child hm => exact ⟨false, hm⟩
  | true =>
    obtain ⟨j, hpassed, hitem⟩ := scan_true h
    obtain ⟨g, hg⟩ : ∃ g, Goal items n (j :: g) := by
      obtain hgoal | ⟨m', hchild, hm'⟩ := hitem
      · exact ⟨[], .here hgoal⟩
      · obtain ⟨g, hg⟩ := goal_of_search hm'
        exact ⟨g, .child hchild hg⟩
    have hij : i ≤ j := by
      by_contra hlt
      exact hfree _ hg (List.cons_lt_cons_iff.mpr (.inl (Nat.lt_of_not_le hlt)))
    by_cases heq : i = j
    · subst heq
      obtain hgoal | ⟨m', hchild, hm'⟩ := hitem
      · simp [hi] at hgoal
      · obtain rfl : m = m' := by simpa [hi] using hchild
        exact ⟨true, hm'⟩
    · have hmem : Item.child m ∈ (items n).take j := by
        apply List.mem_of_getElem?
        rw [List.getElem?_take_of_lt (Nat.lt_of_le_of_ne hij heq), hi]
      cases hpassed _ hmem with
      | child hm => exact ⟨false, hm⟩

theorem search_at {p q : List Nat} (hat : At items n p m) (h : search items k n = some b)
    (hfree : Free items n (p ++ q)) :
    ∃ j c, j + p.length = k ∧ search items j m = some c ∧ Free items m q := by
  induction hat generalizing k b with
  | nil => exact ⟨k, b, rfl, h, hfree⟩
  | cons hi _ ih =>
    cases k with
    | zero => cases h
    | succ k =>
      obtain ⟨c, hc⟩ := search_child h hi hfree
      obtain ⟨j, c', hj, hm⟩ := ih hc (hfree.child hi)
      exact ⟨j, c', by rw [List.length_cons, ← hj, Nat.add_assoc], hm⟩

/-- A search that ends never comes back to a node on its way. -/
theorem not_free_of_loop (h : search items k n = some b) {q : List Nat} (hat : At items n q n)
    (hq : q ≠ []) : ¬ Free items n q := by
  intro hfree
  induction k using Nat.strongRecOn generalizing b with
  | _ k ih =>
    obtain ⟨j, c, hj, hm, -⟩ := search_at hat h (by rwa [List.append_nil] : Free items n (q ++ []))
    have hpos := List.length_pos_iff.mpr hq
    exact ih j (by omega) hm

/-! ## A search that does not end -/

/-- The first item that it does not come back from. -/
theorem scan_stuck (items : N → List (Item N)) (is : List (Item N)) :
    (∃ k b, scan (search items k) is = some b) ∨
    ∃ i m k, is[i]? = some (.child m) ∧ (∀ j b, search items j m ≠ some b) ∧ ∀ x ∈ is.take i,
    Passed (search items k) x := by
  induction is with
  | nil => exact .inl ⟨0, false, rfl⟩
  | cons x is ih =>
    have hnext : ∀ j, Passed (search items j) x →
      (∀ k b, j ≤ k → scan (search items k) is = some b → scan (search items k) (x :: is) =
        some b) →
        (∃ k b, scan (search items k) (x :: is) = some b) ∨ ∃ i m k,
        (x :: is)[i]? = some (.child m) ∧
          (∀ j b, search items j m ≠ some b) ∧ ∀ y ∈ (x :: is).take i,
          Passed (search items k) y := by
      intro j hx hscan
      obtain ⟨k, b, hk⟩ | ⟨i, m, k, hi, hm, hpassed⟩ := ih
      · exact .inl ⟨max j k, b, hscan _ b (le_max_left j k)
          (scan_mono (fun _ _ => search_mono (le_max_right j k)) hk)⟩
      · refine .inr ⟨i + 1, m, max j k, hi, hm, ?_⟩
        have hmono : ∀ {l : Nat} {y}, l ≤ max j k → Passed (search items l) y →
            Passed (search items (max j k)) y := by
          intro l y hl hy
          cases hy with
          | skip => exact .skip
          | child hn => exact .child (search_mono hl hn)
        exact List.forall_mem_cons.mpr ⟨hmono (le_max_left j k) hx,
          fun y hy => hmono (le_max_right j k) (hpassed y hy)⟩
    cases x with
    | skip => exact hnext 0 .skip fun _ _ _ h => h
    | goal => exact .inl ⟨0, true, rfl⟩
    | child n =>
      by_cases hn : ∃ j b, search items j n = some b
      · obtain ⟨j, b, hj⟩ := hn
        cases b with
        | true => exact .inl ⟨j, true, by rw [scan, hj]⟩
        | false => exact hnext j (.child hj) fun k b hk h => by rw [scan, search_mono hk hj, h]
      · exact .inr ⟨0, n, 0, rfl, fun j b hj => hn ⟨j, b, hj⟩, by simp⟩

theorem stuck_child (h : ∀ k b, search items k n ≠ some b) :
    ∃ i m, (items n)[i]? = some (.child m) ∧
    (∀ k b, search items k m ≠ some b) ∧ Free items n [i] := by
  obtain ⟨k, b, hk⟩ | ⟨i, m, k, hi, hm, hpassed⟩ := scan_stuck items (items n)
  · exact absurd hk (h (k + 1) b)
  · refine ⟨i, m, hi, hm, ?_⟩
    intro g hg hlt
    cases g with
    | nil => cases hg
    | cons j q =>
      obtain hji | ⟨-, hq⟩ := List.cons_lt_cons_iff.mp hlt
      · exact absurd (goal_head hg hpassed) (Nat.not_le_of_lt hji)
      · exact absurd hq (List.not_lt_nil q)

/-! ## Loops -/

/-- The position after `l` steps of a path that starts with the node number `a`. -/
def walk (e : Nat → Nat) (a : Nat) : Nat → List Nat
  | 0 => []
  | l + 1 => e a :: walk e (a + 1) l

theorem walk_ne_nil (e : Nat → Nat) (a : Nat) {l : Nat} (hl : 0 < l) : walk e a l ≠ [] := by
  cases l with
  | zero => cases hl
  | succ l => exact List.cons_ne_nil _ _

theorem walk_append (e : Nat → Nat) (a l l' : Nat) :
    walk e a l ++ walk e (a + l) l' = walk e a (l + l') := by
  induction l generalizing a with
  | zero => rw [walk, List.nil_append, Nat.add_zero, Nat.zero_add]
  | succ l ih =>
    rw [walk, List.cons_append, Nat.succ_add, walk, ← ih (a + 1), Nat.add_right_comm, Nat.add_assoc]

section
variable {e : Nat → Nat} {s : Nat → N} (hs : ∀ t, (items (s t))[e t]? = some (.child (s (t + 1))))
include hs

theorem walk_at (a l : Nat) : At items (s a) (walk e a l) (s (a + l)) := by
  induction l generalizing a with
  | zero => exact .nil (s a)
  | succ l ih =>
    have hrest := ih (a + 1)
    rw [Nat.add_right_comm] at hrest
    exact .cons (hs a) hrest

theorem walk_free (hfree : ∀ t, Free items (s t) [e t]) (a l : Nat) :
    Free items (s a) (walk e a l) := by
  induction l generalizing a with
  | zero => exact fun g _ hlt => absurd hlt (List.not_lt_nil g)
  | succ l ih =>
    intro g hg hlt
    cases g with
    | nil => cases hg
    | cons j q =>
      obtain hji | ⟨rfl, hq⟩ := List.cons_lt_cons_iff.mp hlt
      · exact hfree a _ hg (List.cons_lt_cons_iff.mpr (.inl hji))
      · cases hg with
        | here hgoal => simp [hs a] at hgoal
        | child hchild hg =>
          obtain rfl : s (a + 1) = _ := by simpa [hs a] using hchild
          exact ih (a + 1) q hg hq

end

/-- An endless search comes back to a node, and no goal is before that. -/
theorem exists_loop [Finite N] (h : ∀ k b, search items k n ≠ some b) :
    ∃ p q m, At items n p m ∧ At items m q m ∧ q ≠ [] ∧ Free items n (p ++ q) := by
  have hstuck : ∀ x : {m // ∀ k b, search items k m ≠ some b},
    ∃ y : {m // ∀ k b, search items k m ≠ some b}, ∃ i,
      (items x.1)[i]? = some (.child y.1) ∧ Free items x.1 [i] := by
    intro x
    obtain ⟨i, m, hi, hm, hfree⟩ := stuck_child x.2
    exact ⟨⟨m, hm⟩, i, hi, hfree⟩
  choose next item hchild hfree using hstuck
  let path (t : Nat) := next^[t] ⟨n, h⟩
  let s (t : Nat) : N := (path t).1
  let e (t : Nat) : Nat := item (path t)
  have hs : ∀ t, (items (s t))[e t]? = some (.child (s (t + 1))) := by
    intro t
    have hstep : path (t + 1) = next (path t) := Function.iterate_succ_apply' next t _
    show _ = some (Item.child (path (t + 1)).1)
    rw [hstep]
    exact hchild (path t)
  obtain ⟨a, l, hl, heq⟩ : ∃ a l, 0 < l ∧ s (a + l) = s a := by
    obtain ⟨a, b, hab, heq⟩ := Finite.exists_ne_map_eq_of_infinite s
    obtain hlt | hlt := Nat.lt_or_gt_of_ne hab
    · exact ⟨a, b - a, by omega, by rw [Nat.add_sub_cancel' (Nat.le_of_lt hlt), heq]⟩
    · exact ⟨b, a - b, by omega, by rw [Nat.add_sub_cancel' (Nat.le_of_lt hlt), heq]⟩
  have hfirst := walk_at hs 0 a
  have hback := walk_at hs a l
  rw [Nat.zero_add] at hfirst
  rw [heq] at hback
  refine ⟨walk e 0 a, walk e a l, s a, hfirst, hback, walk_ne_nil e a hl, ?_⟩
  have happend := walk_append e 0 a l
  rw [Nat.zero_add] at happend
  rw [happend]
  exact walk_free hs (fun t => hfree (path t)) 0 (a + l)

/-- The search ends if and only if every loop comes after a goal. -/
theorem search_ends_iff [Finite N] : (∃ k b, search items k n = some b) ↔
    ∀ p q m, At items n p m → At items m q m → q ≠ [] → ∃ g, Goal items n g ∧ g < p ++ q := by
  constructor
  · rintro ⟨k, b, h⟩ p q m hp hq hne
    by_contra hno
    have hfree : Free items n (p ++ q) := fun g hg hlt => hno ⟨g, hg, hlt⟩
    obtain ⟨j, c, -, hm, hfree'⟩ := search_at hp h hfree
    exact not_free_of_loop hm hq hne hfree'
  · intro h
    by_contra hends
    obtain ⟨p, q, m, hp, hq, hne, hfree⟩ := exists_loop (n := n) fun k b hk => hends ⟨k, b, hk⟩
    obtain ⟨g, hg, hlt⟩ := h p q m hp hq hne
    exact hfree g hg hlt

end Lib.DepthFirst
