import Mathlib.Data.List.Induction
import Mathlib.Logic.Function.Basic

/-!
# Radix trees kept in a memory of nodes

A node is an array of entries and an entry may name a child node. `walk` follows
a path of indices. As long as no node is reached by two paths of length at most
`d`, an entry of a node at depth `d` is written without moving any node, and a
fresh empty node is linked in without changing what the other paths lead to.
-/

namespace Lib.Radix

variable {N I E : Type*} (child : E → Option N)

def walk (m : N → I → E) : N → List I → Option N
  | n, [] => some n
  | n, i :: p => (child (m n i)).bind fun c => walk m c p

/-- No node is reached by two paths of length at most `d`. -/
def Tree (d : Nat) (m : N → I → E) (r : N) : Prop :=
  ∀ p q n, p.length ≤ d → q.length ≤ d → walk child m r p = some n →
    walk child m r q = some n → p = q

/-- What the tree stores at index `i` of the node that `p` leads to; `e₀` if there
is no such node. -/
def entry (e₀ : E) (m : N → I → E) (r : N) (p : List I) (i : I) : E :=
  match walk child m r p with
  | none => e₀
  | some n => m n i

variable {child} {m : N → I → E} {r n : N} {p : List I} {i : I}

theorem walk_append (m : N → I → E) (r : N) (p q : List I) :
    walk child m r (p ++ q) = (walk child m r p).bind fun n => walk child m n q := by
  induction p generalizing r with
  | nil => rfl
  | cons i p ih =>
    simp only [List.cons_append, walk, Option.bind_assoc]
    congr 1
    funext c
    exact ih c

theorem walk_snoc (m : N → I → E) (r : N) (p : List I) (i : I) :
    walk child m r (p ++ [i]) = (walk child m r p).bind fun n => child (m n i) := by
  rw [walk_append]
  congr 1
  funext n
  simp [walk]

section
variable [DecidableEq N] [DecidableEq I]

def set (m : N → I → E) (n : N) (i : I) (e : E) : N → I → E :=
  Function.update m n (Function.update (m n) i e)

theorem set_apply (m : N → I → E) (n : N) (i : I) (e : E) (n' : N) (j : I) :
    set m n i e n' j = if n' = n ∧ j = i then e else m n' j := by
  unfold set
  by_cases h : n' = n
  · subst h
    by_cases h' : j = i
    · subst h'; simp
    · simp [h']
  · simp [h]

theorem walk_set_deep {d : Nat} (ht : Tree child d m r) (hn : walk child m r p = some n)
    (hp : p.length = d) (e : E) {q : List I} (hq : q.length ≤ d) :
    walk child (set m n i e) r q = walk child m r q := by
  induction q using List.reverseRecOn with
  | nil => rfl
  | append_singleton q j ih =>
    simp only [List.length_append, List.length_cons, List.length_nil] at hq
    rw [walk_snoc, walk_snoc, ih (by omega)]
    cases hw : walk child m r q with
    | none => rfl
    | some x =>
      -- a node read on the way is less than `d` deep, so it is not `n`
      have hx : x ≠ n := by
        intro e
        subst e
        have := ht q p x (by omega) (by omega) hw hn
        rw [this] at hq
        omega
      simp [set_apply, hx]

theorem Tree.set_deep {d : Nat} (ht : Tree child d m r) (hn : walk child m r p = some n)
    (hp : p.length = d) (e : E) : Tree child d (set m n i e) r := by
  intro p₁ p₂ x h₁ h₂ hw₁ hw₂
  rw [walk_set_deep ht hn hp e h₁] at hw₁
  rw [walk_set_deep ht hn hp e h₂] at hw₂
  exact ht p₁ p₂ x h₁ h₂ hw₁ hw₂

theorem entry_set_deep {d : Nat} (ht : Tree child d m r) (hn : walk child m r p = some n)
    (hp : p.length = d) (e₀ e : E) {q : List I} (hq : q.length ≤ d) (j : I) :
    entry child e₀ (set m n i e) r q j = if q = p ∧ j = i then e else entry child e₀ m r q j := by
  unfold entry
  rw [walk_set_deep ht hn hp e hq]
  cases hw : walk child m r q with
  | none =>
    have hne : q ≠ p := by
      intro h
      rw [h, hn] at hw
      cases hw
    simp [hne]
  | some x =>
    have hiff : x = n ↔ q = p := by
      constructor
      · intro h
        subst h
        exact ht q p x hq (by omega) hw hn
      · intro h
        rw [h, hn] at hw
        exact (Option.some.inj hw).symm
    simp only [set_apply, hiff]

def link (m : N → I → E) (n : N) (i : I) (e : E) (c : N) (f : I → E) : N → I → E :=
  Function.update (set m n i e) c f

section
variable {d : Nat} {e : E} {c : N} {f : I → E} (ht : Tree child d m r)
    (hn : walk child m r p = some n)
  (hp : p.length < d) (habs : child (m n i) = none) (he : child e = some c) (hf : ∀ j,
    child (f j) = none)
  (hfresh : ∀ q, q.length ≤ d → walk child m r q ≠ some c)
include ht hn hp habs he hf hfresh

theorem walk_link {q : List I} (hq : q.length ≤ d) :
    walk child (link m n i e c f) r q = if q = p ++ [i] then some c else walk child m r q := by
  have hgone : walk child m r (p ++ [i]) = none := by rw [walk_snoc, hn]; exact habs
  induction q using List.reverseRecOn with
  | nil => simp [walk]
  | append_singleton q j ih =>
    simp only [List.length_append, List.length_cons, List.length_nil] at hq
    have ih := ih (by omega)
    rw [walk_snoc, walk_snoc, ih]
    by_cases hqp : q = p ++ [i]
    · -- below the new node there is nothing yet
      rw [if_pos hqp, if_neg (by intro h; have := congrArg List.length h; simp [hqp] at this),
        hqp, hgone]
      simp [link, hf]
    · rw [if_neg hqp]
      cases hw : walk child m r q with
      | none =>
        have hne : q ++ [j] ≠ p ++ [i] := by
          intro h
          rw [(List.append_inj' h rfl).1, hn] at hw
          cases hw
        simp [hne]
      | some x =>
        have hxc : x ≠ c := fun h => hfresh q (by omega) (h ▸ hw)
        have hlink : link m n i e c f x j = set m n i e x j := by simp [link, hxc]
        simp only [Option.bind_some, hlink, set_apply]
        by_cases hxn : x = n
        · subst hxn
          have hqp : q = p := ht q p x (by omega) (by omega) hw hn
          subst hqp
          by_cases hj : j = i
          · simp [hj, he]
          · simp [hj]
        · have hne : q ++ [j] ≠ p ++ [i] := by
            intro h
            rw [(List.append_inj' h rfl).1, hn] at hw
            exact hxn (Option.some.inj hw).symm
          simp [hxn, hne]

theorem Tree.link : Tree child d (link m n i e c f) r := by
  intro p₁ p₂ x h₁ h₂ hw₁ hw₂
  rw [walk_link ht hn hp habs he hf hfresh h₁] at hw₁
  rw [walk_link ht hn hp habs he hf hfresh h₂] at hw₂
  by_cases e₁ : p₁ = p ++ [i] <;> by_cases e₂ : p₂ = p ++ [i]
  · rw [e₁, e₂]
  · rw [if_pos e₁] at hw₁
    rw [if_neg e₂, ← hw₁] at hw₂
    exact absurd hw₂ (hfresh p₂ h₂)
  · rw [if_pos e₂] at hw₂
    rw [if_neg e₁, ← hw₂] at hw₁
    exact absurd hw₁ (hfresh p₁ h₁)
  · rw [if_neg e₁] at hw₁
    rw [if_neg e₂] at hw₂
    exact ht p₁ p₂ x h₁ h₂ hw₁ hw₂

theorem entry_link {e₀ : E} (hempty : ∀ j, f j = e₀) {q : List I} (hq : q.length = d) (j : I) :
    entry child e₀ (Lib.Radix.link m n i e c f) r q j = entry child e₀ m r q j := by
  unfold entry
  rw [walk_link ht hn hp habs he hf hfresh (Nat.le_of_eq hq)]
  by_cases hqp : q = p ++ [i]
  · have hgone : walk child m r (p ++ [i]) = none := by rw [walk_snoc, hn]; exact habs
    rw [if_pos hqp, hqp, hgone]
    simp [Lib.Radix.link, hempty]
  · rw [if_neg hqp]
    cases hw : walk child m r q with
    | none => rfl
    | some x =>
      have hxc : x ≠ c := fun h => hfresh q (by omega) (h ▸ hw)
      have hxn : x ≠ n := by
        intro h
        subst h
        have := ht q p x (by omega) (by omega) hw hn
        rw [this] at hq
        omega
      simp [Lib.Radix.link, hxc, set_apply, hxn]

end

end

end Lib.Radix
