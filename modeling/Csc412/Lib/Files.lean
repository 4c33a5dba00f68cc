import Mathlib.Logic.Function.Basic

/-!
# Files with names

Names lead to numbered files, as directory entries lead to inodes. An open file is
known by its number, so it can be written after its name has moved.
-/

namespace Lib

variable {N β : Type*}

structure Files (N β : Type*) where
  dir : N → Option Nat
  data : Nat → List β
  next : Nat

/-- `l` with `bs` written at `off`; a gap before `off` is filled with `z`. -/
def writeAt (z : β) (l : List β) (off : Nat) (bs : List β) : List β :=
  l.take off ++ List.replicate (off - l.length) z ++ bs ++ l.drop (off + bs.length)

theorem writeAt_end (z : β) {l : List β} {off : Nat} (bs : List β) (h : l.length = off) :
    writeAt z l off bs = l ++ bs := by
  subst h
  simp [writeAt]

namespace Files

variable [DecidableEq N]

def read (f : Files N β) (n : N) : Option (List β) := (f.dir n).map f.data

/-- Open `n` for writing, with `O_CREAT` and `O_TRUNC`. -/
def create (f : Files N β) (n : N) : Nat × Files N β :=
  match f.dir n with
  | some i => (i, { f with data := Function.update f.data i [] })
  | none => (f.next, ⟨Function.update f.dir n (some f.next), Function.update f.data f.next [],
    f.next + 1⟩)

def write (z : β) (f : Files N β) (i off : Nat) (bs : List β) : Files N β :=
  { f with data := Function.update f.data i (writeAt z (f.data i) off bs) }

def rename (f : Files N β) (a b : N) : Option (Files N β) :=
  match f.dir a with
  | some i => some { f with dir := Function.update (Function.update f.dir a none) b (some i) }
  | none => none

/-- Every name leads to a file there is, and a name of `own` shares its file with no
other name. -/
structure Ok (f : Files N β) (own : N → Prop) : Prop where
  bound : ∀ n i, f.dir n = some i → i < f.next
  single : ∀ n n' i, own n → f.dir n = some i → f.dir n' = some i → n' = n

variable {f g : Files N β} {own : N → Prop} {n n' a b : N} {i off : Nat} {z : β} {bs : List β}

theorem create_fresh (h : f.dir n = none) :
    f.create n = (f.next, ⟨Function.update f.dir n (some f.next), Function.update f.data f.next [],
        f.next + 1⟩) := by
  simp [create, h]

theorem create_trunc (h : f.dir n = some i) :
    f.create n = (i, { f with data := Function.update f.data i [] }) := by
  simp [create, h]

theorem create_self (f : Files N β) (n : N) :
    (f.create n).2.dir n = some (f.create n).1 ∧ (f.create n).2.data (f.create n).1 = [] := by
  cases h : f.dir n with
  | none => simp [create_fresh h]
  | some i => simp [create_trunc h, h]

theorem create_dir_of_ne (f : Files N β) (h : n' ≠ n) : (f.create n).2.dir n' = f.dir n' := by
  cases hd : f.dir n with
  | none => simp [create_fresh hd, h]
  | some i => simp [create_trunc hd]

theorem Ok.create (h : f.Ok own) (n : N) : (f.create n).2.Ok own := by
  cases hd : f.dir n with
  | some i =>
    rw [create_trunc hd]
    exact ⟨h.bound, h.single⟩
  | none =>
    rw [create_fresh hd]
    constructor
    · intro m j hm
      simp only [Function.update_apply] at hm
      split at hm
      · cases hm
        exact Nat.lt_succ_self _
      · exact Nat.lt_succ_of_lt (h.bound m j hm)
    · intro m m' j hown hm hm'
      simp only [Function.update_apply] at hm hm'
      split at hm <;> split at hm'
      · rename_i hmn hmn'
        exact hmn'.trans hmn.symm
      · cases hm
        exact absurd (h.bound m' _ hm') (Nat.lt_irrefl _)
      · cases hm'
        exact absurd (h.bound m _ hm) (Nat.lt_irrefl _)
      · exact h.single m m' j hown hm hm'

theorem Ok.create_data (h : f.Ok own) (hn : own n) (hne : n' ≠ n) (hi : f.dir n' = some i) :
    (f.create n).2.data i = f.data i := by
  cases hd : f.dir n with
  | none =>
    rw [create_fresh hd]
    have hlt := h.bound n' i hi
    simp [Nat.ne_of_lt hlt]
  | some j =>
    rw [create_trunc hd]
    have hij : i ≠ j := fun hij => hne (h.single n n' j hn hd (hij ▸ hi))
    simp [hij]

theorem Ok.create_read (h : f.Ok own) (hn : own n) (hne : n' ≠ n) :
    (f.create n).2.read n' = f.read n' := by
  unfold read
  rw [create_dir_of_ne f hne]
  cases hi : f.dir n' with
  | none => rfl
  | some i =>
    simp only [Option.map_some]
    rw [h.create_data hn hne hi]

omit [DecidableEq N] in
theorem Ok.write (h : f.Ok own) : (f.write z i off bs).Ok own := ⟨h.bound, h.single⟩

omit [DecidableEq N] in
theorem write_read (hne : f.dir n ≠ some i) : (f.write z i off bs).read n = f.read n := by
  unfold read
  show (f.dir n).map (f.write z i off bs).data = _
  cases hj : f.dir n with
  | none => rfl
  | some j =>
    have hji : j ≠ i := fun hji => hne (hji ▸ hj)
    simp [Files.write, hji]

theorem rename_eq_none : f.rename a b = none ↔ f.dir a = none := by
  unfold rename
  cases f.dir a <;> simp

theorem rename_eq_some (h : f.rename a b = some g) :
    ∃ i, f.dir a = some i ∧ g =
        { f with dir := Function.update (Function.update f.dir a none) b (some i) } := by
  unfold rename at h
  cases hi : f.dir a with
  | none => simp [hi] at h
  | some i =>
    simp only [hi, Option.some.injEq] at h
    exact ⟨i, rfl, h.symm⟩

theorem rename_dir (h : f.rename a b = some g) (m : N) :
    g.dir m = if m = b then f.dir a else if m = a then none else f.dir m := by
  obtain ⟨i, hi, rfl⟩ := rename_eq_some h
  simp [Function.update_apply, hi]

theorem rename_data (h : f.rename a b = some g) : g.data = f.data := by
  obtain ⟨i, -, rfl⟩ := rename_eq_some h
  rfl

theorem rename_read (h : f.rename a b = some g) (m : N) :
    g.read m = if m = b then f.read a else if m = a then none else f.read m := by
  unfold read
  rw [rename_dir h, rename_data h]
  split
  · rfl
  · split <;> rfl

theorem Ok.rename (h : f.Ok own) (hown : own a) (hr : f.rename a b = some g) : g.Ok own := by
  have hdir := rename_dir hr
  have hback : ∀ m j, g.dir m = some j → ∃ m₀, f.dir m₀ = some j ∧
      (m = b ∧ m₀ = a ∨ m ≠ b ∧ m ≠ a ∧ m₀ = m) := by
    intro m j hm
    rw [hdir] at hm
    split at hm
    · rename_i hmb
      exact ⟨a, hm, .inl ⟨hmb, rfl⟩⟩
    · rename_i hmb
      split at hm
      · cases hm
      · rename_i hma
        exact ⟨m, hm, .inr ⟨hmb, hma, rfl⟩⟩
  constructor
  · intro m j hm
    obtain ⟨m₀, hm₀, -⟩ := hback m j hm
    obtain ⟨i, -, rfl⟩ := rename_eq_some hr
    exact h.bound m₀ j hm₀
  · intro m m' j hm hj hj'
    obtain ⟨m₀, hm₀, hfrom⟩ := hback m j hj
    obtain ⟨m₀', hm₀', hfrom'⟩ := hback m' j hj'
    rcases hfrom with ⟨rfl, rfl⟩ | ⟨hmb, hma, rfl⟩
    · rcases hfrom' with ⟨hmb', -⟩ | ⟨-, hma', rfl⟩
      · exact hmb'
      · exact absurd (h.single _ _ j hown hm₀ hm₀') hma'
    · rcases hfrom' with ⟨-, rfl⟩ | ⟨-, -, rfl⟩
      · exact absurd (h.single _ _ j hown hm₀' hm₀) hma
      · exact h.single _ _ j hm hm₀ hm₀'

end Files

end Lib
