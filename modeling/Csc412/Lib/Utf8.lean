import Mathlib.Algebra.GroupWithZero.Nat
import Mathlib.Data.List.Basic

/-!
# Runes and fields of byte strings

Strings are lists of bytes, and a rune is decoded at a time: a byte that starts no valid
encoding is a rune of its own, `runeError`. A field is a maximal run of runes of one
class. The fields of a string that is cut into pieces are those of the pieces exactly
when no cut lies inside of a field.
-/

namespace Lib.Utf8

def runeError : Nat := 0xFFFD

/-- How many bytes follow the first one `b`, and the range of the one after it. -/
def lead (b : Nat) : Option (Nat × Nat × Nat) :=
  if 0xC2 ≤ b ∧ b ≤ 0xDF then some (1, 0x80, 0xBF)
  else if b = 0xE0 then some (2, 0xA0, 0xBF)
  else if b = 0xED then some (2, 0x80, 0x9F)
  else if 0xE1 ≤ b ∧ b ≤ 0xEF then some (2, 0x80, 0xBF)
  else if b = 0xF0 then some (3, 0x90, 0xBF)
  else if 0xF1 ≤ b ∧ b ≤ 0xF3 then some (3, 0x80, 0xBF)
  else if b = 0xF4 then some (3, 0x80, 0x8F)
  else none

def isTail (c : UInt8) : Bool := 0x80 ≤ c.toNat ∧ c.toNat ≤ 0xBF

/-- The bytes after the first one, with the range of their first one. -/
def validTail (lo hi : Nat) : List UInt8 → Bool
  | [] => true
  | c :: cs => lo ≤ c.toNat ∧ c.toNat ≤ hi ∧ (c :: cs).all isTail

/-- The bits of the first byte that belong to the rune. -/
def leadBits (b n : Nat) : Nat := b % 2 ^ (6 - n)

/-- The first rune and its width. -/
def decodeRune : List UInt8 → Nat × Nat
  | [] => (runeError, 0)
  | b :: s =>
    if b.toNat < 0x80 then (b.toNat, 1)
    else
      match lead b.toNat with
      | none => (runeError, 1)
      | some (n, lo, hi) =>
        if n ≤ s.length ∧ validTail lo hi (s.take n) then
          ((s.take n).foldl (fun r c => r * 64 + c.toNat % 64) (leadBits b.toNat n), n + 1)
        else (runeError, 1)

theorem decodeRune_width {s : List UInt8} (h : s ≠ []) :
    1 ≤ (decodeRune s).2 ∧ (decodeRune s).2 ≤ s.length := by
  cases s with
  | nil => exact absurd rfl h
  | cons b s =>
    simp only [decodeRune, List.length_cons]
    split
    · omega
    · split
      · omega
      · split
        · rename_i hn
          simp only
          omega
        · omega

/-- The runes of a string with their bytes. -/
def runes (s : List UInt8) : List (Nat × List UInt8) :=
  if h : s = [] then []
  else
    have _hw := decodeRune_width h
    ((decodeRune s).1, s.take (decodeRune s).2) :: runes (s.drop (decodeRune s).2)
termination_by s.length
decreasing_by
  simp only [List.length_drop]
  omega

theorem runes_nil : runes [] = [] := by
  rw [runes]
  simp

theorem runes_of_ne {s : List UInt8} (h : s ≠ []) :
    runes s = ((decodeRune s).1, s.take (decodeRune s).2) :: runes (s.drop (decodeRune s).2) := by
  rw [runes, dif_neg h]

/-! ## Cutting an encoding -/

theorem lead_tail {c : UInt8} (h : isTail c) : lead c.toNat = none := by
  simp only [isTail, decide_eq_true_eq] at h
  unfold lead
  simp only [show ¬ (0xC2 ≤ c.toNat ∧ c.toNat ≤ 0xDF) by omega, show ¬ c.toNat = 0xE0 by omega,
    show ¬ c.toNat = 0xED by omega, show ¬ (0xE1 ≤ c.toNat ∧ c.toNat ≤ 0xEF) by omega,
    show ¬ c.toNat = 0xF0 by omega, show ¬ (0xF1 ≤ c.toNat ∧ c.toNat ≤ 0xF3) by omega,
    show ¬ c.toNat = 0xF4 by omega, if_false]

theorem decodeRune_tail {c : UInt8} (h : isTail c) (s : List UInt8) :
    decodeRune (c :: s) = (runeError, 1) := by
  have hc := h
  simp only [isTail, decide_eq_true_eq] at hc
  simp only [decodeRune, lead_tail h]
  rw [if_neg (by omega)]

theorem decodeRune_tails (b : UInt8) (s : List UInt8) :
    (s.take ((decodeRune (b :: s)).2 - 1)).all isTail := by
  simp only [decodeRune]
  split
  · simp
  · split
    · simp
    · split
      · rename_i n lo hi _ hn
        simp only [Nat.add_sub_cancel]
        cases ht : s.take n with
        | nil => simp
        | cons c cs =>
          have hv := hn.2
          rw [ht] at hv
          simp only [validTail, decide_eq_true_eq] at hv
          exact hv.2.2
      · simp

/-- Without what follows, the first rune is the same or, if it is cut, not valid. -/
theorem decodeRune_append {s : List UInt8} (h : s ≠ []) (t : List UInt8) :
    decodeRune s = decodeRune (s ++ t) ∨ s.length < (decodeRune (s ++ t)).2 ∧
    decodeRune s = (runeError, 1) := by
  cases s with
  | nil => exact absurd rfl h
  | cons b s =>
    simp only [decodeRune, List.cons_append, List.length_cons, List.length_append]
    split
    · exact .inl rfl
    · split
      · exact .inl rfl
      · rename_i n lo hi _
        by_cases hn : n ≤ s.length
        · left
          rw [List.take_append_of_le_length hn]
          have hle : (n ≤ s.length + t.length) ↔ n ≤ s.length := ⟨fun _ => hn, fun _ => by omega⟩
          simp only [hle]
        · rw [if_neg fun hs => hn hs.1]
          split
          · exact .inr ⟨by simp only; omega, rfl⟩
          · exact .inl rfl

/-! ## Marked bytes -/

def marks (letter : Nat → Bool) (s : List UInt8) : List (UInt8 × Bool) :=
  (runes s).flatMap fun p => p.2.map fun b => (b, letter p.1)

section
variable {letter : Nat → Bool}

theorem marks_nil : marks letter [] = [] := by
  simp [marks, runes_nil]

theorem marks_of_ne {s : List UInt8} (h : s ≠ []) :
    marks letter s = (s.take (decodeRune s).2).map (fun b => (b, letter (decodeRune s).1)) ++
      marks letter (s.drop (decodeRune s).2) := by
  unfold marks
  rw [runes_of_ne h, List.flatMap_cons]

theorem marks_ascii {b : UInt8} (h : b.toNat < 0x80) (s : List UInt8) :
    marks letter (b :: s) = (b, letter b.toNat) :: marks letter s := by
  rw [marks_of_ne (List.cons_ne_nil _ _)]
  simp [decodeRune, h]

theorem marks_fst (letter : Nat → Bool) (s : List UInt8) : (marks letter s).map Prod.fst = s := by
  induction s using runes.induct with
  | case1 => simp [marks_nil]
  | case2 s h _ ih =>
    rw [marks_of_ne h, List.map_append, ih, List.map_map]
    simp [Function.comp_def]

theorem marks_length (letter : Nat → Bool) (s : List UInt8) :
    (marks letter s).length = s.length := by
  conv_rhs => rw [← marks_fst letter s]
  simp

section
variable (herr : letter runeError = false)
include herr

theorem marks_tails {u : List UInt8} (hu : u.all isTail) (v : List UInt8) :
    marks letter (u ++ v) = u.map (fun b => (b, false)) ++ marks letter v := by
  induction u with
  | nil => rfl
  | cons c u ih =>
    rw [List.all_cons, Bool.and_eq_true] at hu
    rw [List.cons_append, marks_of_ne (List.cons_ne_nil _ _), decodeRune_tail hu.1, herr]
    simp only [List.take_succ_cons, List.take_zero, List.drop_succ_cons, List.drop_zero,
      List.map_cons, List.map_nil, List.cons_append, List.nil_append]
    rw [ih hu.2]

/-- A cut lies between two runes or in one that is no letter, or it takes the bytes on
both sides of it away from a letter. -/
theorem marks_append (s t : List UInt8) : marks letter (s ++ t) = marks letter s ++ marks letter t ∨
    ∃ p u v q, u ≠ [] ∧ v ≠ [] ∧
    marks letter (s ++ t) = p ++ (u ++ v).map (fun b => (b, true)) ++ q ∧
      marks letter s = p ++ u.map (fun b => (b, false)) ∧
      marks letter t = v.map (fun b => (b, false)) ++ q := by
  induction s using runes.induct with
  | case1 => exact .inl (by simp [marks_nil])
  | case2 s h _ ih =>
    have hst : s ++ t ≠ [] := fun hst => h (List.append_eq_nil_iff.mp hst).1
    rcases decodeRune_append h t with heq | ⟨hlt, hbad⟩
    · -- the first rune lies in `s`
      have hw := (decodeRune_width h).2
      rw [marks_of_ne hst, marks_of_ne h, ← heq, List.take_append_of_le_length hw,
        List.drop_append_of_le_length hw]
      rcases ih with ih | ⟨p, u, v, q, hu, hv, hall, hs, ht⟩
      · exact .inl (by rw [ih, List.append_assoc])
      · refine .inr ⟨(s.take (decodeRune s).2).map (fun b => (b, letter (decodeRune s).1)) ++ p, u,
          v, q, hu, hv, ?_, ?_, ht⟩
        · rw [hall, ← List.append_assoc, ← List.append_assoc]
        · rw [hs, List.append_assoc]
    · -- the first rune is cut, so all of its bytes but one only follow others
      cases s with
      | nil => exact absurd rfl h
      | cons b s =>
        have htails := decodeRune_tails b (s ++ t)
        have hw := (decodeRune_width hst).2
        simp only [List.cons_append] at htails hw hlt hst ⊢
        generalize hdec : decodeRune (b :: (s ++ t)) = d at htails hw hlt
        obtain ⟨r, w⟩ := d
        simp only [List.length_cons, List.length_append] at htails hw hlt
        obtain ⟨m, rfl⟩ : ∃ m, w = s.length + 1 + m := ⟨w - (s.length + 1), by omega⟩
        rw [show s.length + 1 + m - 1 = s.length + m by omega, List.take_length_add_append,
          List.all_append, Bool.and_eq_true] at htails
        have hs : marks letter (b :: s) = (b :: s).map fun b => (b, false) := by
          rw [marks_of_ne h, hbad, herr]
          have hrest := marks_tails herr htails.1 []
          simp only [List.append_nil, marks_nil] at hrest
          simp [hrest]
        have ht : marks letter t = (t.take m).map (fun b => (b, false)) ++
            marks letter (t.drop m) := by
          conv_lhs => rw [← List.take_append_drop m t]
          rw [marks_tails herr htails.2]
        have hall : marks letter (b :: (s ++ t)) =
            (b :: s ++ t.take m).map (fun b => (b, letter r)) ++ marks letter (t.drop m) := by
          rw [marks_of_ne hst, hdec]
          simp only
          rw [show b :: (s ++ t) = (b :: s) ++ t from rfl,
            show s.length + 1 + m = (b :: s).length + m from rfl,
            List.take_length_add_append, List.drop_length_add_append]
        cases hr : letter r with
        | false =>
          left
          rw [hall, hs, ht, hr, List.map_append, List.append_assoc]
        | true =>
          right
          refine ⟨[], b :: s, t.take m, marks letter (t.drop m), List.cons_ne_nil _ _, ?_,
            ?_, ?_, ht⟩
          · intro hnil
            have hlen := congrArg List.length hnil
            simp only [List.length_take, List.length_nil] at hlen
            omega
          · rw [hall, hr]
            rfl
          · rw [hs]
            rfl

end

end

/-! ## Fields -/

/-- The field that is open, if there is one. -/
def emit {α : Type*} : List α → List (List α)
  | [] => []
  | a :: l => [a :: l]

def fieldsLoop (sep : Nat → Bool) : List (Nat × List UInt8) → List UInt8 → List (List UInt8)
  | [], cur => emit cur
  | (r, bs) :: rs, cur =>
    if sep r then emit cur ++ fieldsLoop sep rs [] else fieldsLoop sep rs (cur ++ bs)

/-- The maximal runs of runes that are no separators. -/
def fieldsFunc (sep : Nat → Bool) (s : List UInt8) : List (List UInt8) :=
  fieldsLoop sep (runes s) []

/-- The maximal runs of marked elements, with the run that is open. -/
def runs {α : Type*} : List (α × Bool) → List α → List (List α)
  | [], cur => emit cur
  | (a, true) :: l, cur => runs l (cur ++ [a])
  | (_, false) :: l, cur => emit cur ++ runs l []

/-- The elements that start a run. -/
def starts : Bool → List Bool → Nat
  | _, [] => 0
  | prev, b :: l => (if b && !prev then 1 else 0) + starts b l

section
variable {α : Type*}

theorem runs_map_true (as : List α) (l : List (α × Bool)) (cur : List α) :
    runs (as.map (fun a => (a, true)) ++ l) cur = runs l (cur ++ as) := by
  induction as generalizing cur with
  | nil => simp
  | cons a as ih => simp [runs, ih]

theorem runs_map_false {as : List α} (h : as ≠ []) (l : List (α × Bool)) (cur : List α) :
    runs (as.map (fun a => (a, false)) ++ l) cur = emit cur ++ runs l [] := by
  induction as generalizing cur with
  | nil => exact absurd rfl h
  | cons a as ih =>
    simp only [List.map_cons, List.cons_append, runs]
    by_cases has : as = []
    · simp [has]
    · rw [ih has, emit, List.nil_append]

theorem runs_false (l₁ : List (α × Bool)) (a : α) (l₂ : List (α × Bool)) (cur : List α) :
    runs (l₁ ++ (a, false) :: l₂) cur = runs l₁ cur ++ runs l₂ [] := by
  induction l₁ generalizing cur with
  | nil => rfl
  | cons b l₁ ih =>
    obtain ⟨b, mark⟩ := b
    cases mark with
    | true => simp [runs, ih]
    | false => simp [runs, ih]

theorem runs_append {l₁ l₂ : List (α × Bool)}
    (h : ¬ ((l₁.map Prod.snd).getLast? = some true ∧ (l₂.map Prod.snd).head? = some true)) :
    runs (l₁ ++ l₂) [] = runs l₁ [] ++ runs l₂ [] := by
  cases l₂ with
  | nil => simp [runs, emit]
  | cons b l₂ =>
    obtain ⟨b, mark₂⟩ := b
    cases mark₂ with
    | false => simp [runs_false, runs, emit]
    | true =>
      rcases List.eq_nil_or_concat l₁ with rfl | ⟨l₁, ⟨a, mark₁⟩, rfl⟩
      · simp [runs, emit]
      · cases mark₁ with
        | true => simp at h
        | false => simp [runs_false, runs, emit]

theorem runs_length (l : List (α × Bool)) (cur : List α) :
    (runs l cur).length = (emit cur).length + starts (!cur.isEmpty) (l.map Prod.snd) := by
  induction l generalizing cur with
  | nil => rfl
  | cons a l ih =>
    obtain ⟨a, mark⟩ := a
    cases mark with
    | true =>
      rw [runs, ih]
      cases cur <;> simp [starts, emit]
    | false =>
      rw [runs, List.length_append, ih]
      simp [starts, emit]

theorem runs_total (l : List (α × Bool)) (cur : List α) :
    ((runs l cur).map List.length).sum = cur.length + (l.map Prod.snd).count true := by
  have hemit : ∀ cur : List α, ((emit cur).map List.length).sum = cur.length := by
    intro cur
    cases cur <;> simp [emit]
  induction l generalizing cur with
  | nil => simp [runs, hemit]
  | cons a l ih =>
    obtain ⟨a, mark⟩ := a
    cases mark with
    | true =>
      rw [runs, ih]
      simp only [List.length_append, List.length_cons, List.length_nil, List.map_cons,
        List.count_cons_self]
      omega
    | false =>
      rw [runs, List.map_append, List.sum_append, ih, hemit]
      simp

theorem starts_append (prev : Bool) (l₁ l₂ : List Bool) :
    starts prev (l₁ ++ l₂) = starts prev l₁ + starts (l₁.getLast?.getD prev) l₂ := by
  induction l₁ generalizing prev with
  | nil => simp [starts]
  | cons b l₁ ih =>
    rw [List.cons_append, starts, starts, ih, Nat.add_assoc, List.getLast?_cons, Option.getD_some]

theorem starts_true (l : List Bool) :
    starts true l + (if l.head? = some true then 1 else 0) = starts false l := by
  cases l with
  | nil => rfl
  | cons b l =>
    cases b <;> simp [starts, Nat.add_comm]

/-- A cut between two marked elements makes one more run. -/
theorem starts_cut (l₁ l₂ : List Bool) :
    starts false (l₁ ++ l₂) + (if l₁.getLast? = some true ∧ l₂.head? = some true then 1 else 0) =
      starts false l₁ + starts false l₂ := by
  have h := starts_true l₂
  rw [starts_append]
  cases hlast : l₁.getLast? with
  | none => simp
  | some b =>
    cases b with
    | false => simp
    | true =>
      simp only [Option.getD_some, true_and]
      omega

end

/-! ## Fields of pieces -/

section
variable {letter : Nat → Bool}

def flags (letter : Nat → Bool) (s : List UInt8) : List Bool := (marks letter s).map Prod.snd

theorem flags_length (letter : Nat → Bool) (s : List UInt8) :
    (flags letter s).length = s.length := by
  rw [flags, List.length_map, marks_length]

/-- The bytes on both sides of offset `p` belong to letters, so `p` lies inside of a field. -/
def Inside (letter : Nat → Bool) (s : List UInt8) (p : Nat) : Prop :=
  0 < p ∧ (flags letter s)[p - 1]? = some true ∧ (flags letter s)[p]? = some true

theorem not_inside_of_le {s : List UInt8} {p : Nat} (h : s.length ≤ p) : ¬ Inside letter s p := by
  intro hin
  have hnone : (flags letter s)[p]? = none := by
    rw [List.getElem?_eq_none]
    rw [flags_length]
    exact h
  have hsome := hin.2.2
  rw [hnone] at hsome
  cases hsome

instance (letter : Nat → Bool) (s : List UInt8) (p : Nat) : Decidable (Inside letter s p) :=
  inferInstanceAs (Decidable (_ ∧ _ ∧ _))

theorem fieldsLoop_eq {rs : List (Nat × List UInt8)} (h : ∀ p ∈ rs, p.2 ≠ []) (cur : List UInt8) :
    fieldsLoop (fun r => !letter r) rs cur =
        runs (rs.flatMap fun p => p.2.map fun b => (b, letter p.1)) cur := by
  induction rs generalizing cur with
  | nil => rfl
  | cons p rs ih =>
    obtain ⟨r, bs⟩ := p
    have ih := ih fun p hp => h p (List.mem_cons_of_mem _ hp)
    rw [List.flatMap_cons, fieldsLoop]
    cases hr : letter r with
    | true =>
      rw [runs_map_true, ← ih]
      rfl
    | false =>
      rw [runs_map_false (h (r, bs) List.mem_cons_self), ← ih]
      rfl

theorem runes_ne_nil (s : List UInt8) : ∀ p ∈ runes s, p.2 ≠ [] := by
  induction s using runes.induct with
  | case1 => simp [runes_nil]
  | case2 s h hw ih =>
    intro p hp
    rw [runes_of_ne h] at hp
    rcases List.mem_cons.mp hp with rfl | hp
    · intro hnil
      have hlen := congrArg List.length hnil
      simp only [List.length_take, List.length_nil] at hlen
      omega
    · exact ih p hp

theorem fieldsFunc_eq (s : List UInt8) :
    fieldsFunc (fun r => !letter r) s = runs (marks letter s) [] :=
  fieldsLoop_eq (runes_ne_nil s) []

theorem fieldsFunc_length (s : List UInt8) :
    (fieldsFunc (fun r => !letter r) s).length = starts false (flags letter s) := by
  rw [fieldsFunc_eq, runs_length]
  simp [emit, flags]

theorem fieldsFunc_total (s : List UInt8) :
    ((fieldsFunc (fun r => !letter r) s).map List.length).sum = (flags letter s).count true := by
  rw [fieldsFunc_eq, runs_total]
  simp [flags]

theorem inside_append {s t : List UInt8}
    (h : marks letter (s ++ t) = marks letter s ++ marks letter t) :
    Inside letter (s ++ t) s.length ↔ (flags letter s).getLast? = some true ∧
    (flags letter t).head? = some true := by
  have hlen := flags_length letter s
  have hflags : flags letter (s ++ t) = flags letter s ++ flags letter t := by simp [flags, h]
  have hright : (flags letter s ++ flags letter t)[s.length]? = (flags letter t).head? := by
    rw [List.getElem?_append_right (by omega), hlen, Nat.sub_self, List.head?_eq_getElem?]
  unfold Inside
  rw [hflags, hright, List.getLast?_eq_getElem?, hlen]
  constructor
  · intro hin
    rw [List.getElem?_append_left (by omega)] at hin
    exact hin.2
  · intro hin
    have hpos : 0 < s.length := by
      by_contra hzero
      have hnil : flags letter s = [] := List.eq_nil_of_length_eq_zero (by omega)
      simp [hnil] at hin
    rw [List.getElem?_append_left (by omega)]
    exact ⟨hpos, hin⟩

theorem inside_append_right {s t : List UInt8}
    (h : marks letter (s ++ t) = marks letter s ++ marks letter t) {p : Nat} (hp : 0 < p) :
    Inside letter (s ++ t) (s.length + p) ↔ Inside letter t p := by
  have hlen := flags_length letter s
  have hflags : flags letter (s ++ t) = flags letter s ++ flags letter t := by simp [flags, h]
  unfold Inside
  rw [hflags, List.getElem?_append_right (by omega), List.getElem?_append_right (by omega), hlen,
    show s.length + p - 1 - s.length = p - 1 by omega, Nat.add_sub_cancel_left]
  simp only [hp, true_and, show 0 < s.length + p by omega]

section
variable (herr : letter runeError = false)
include herr

/-- A cut never makes letters, and if it takes none away it leaves all marks. -/
theorem count_append (s t : List UInt8) :
    (flags letter s).count true + (flags letter t).count true ≤ (flags letter (s ++ t)).count true ∧
      ((flags letter s).count true + (flags letter t).count true =
        (flags letter (s ++ t)).count true →
        marks letter (s ++ t) = marks letter s ++ marks letter t) := by
  rcases marks_append herr s t with hsplit | ⟨p, u, v, q, hu, hv, hall, hs, ht⟩
  · refine ⟨?_, fun _ => hsplit⟩
    simp [flags, hsplit]
  · have hpos : 0 < u.length := List.length_pos_iff.mpr hu
    simp only [flags, hall, hs, ht, List.map_append, List.map_map, List.count_append,
      Function.comp_def, List.map_const', List.count_replicate, beq_self_eq_true, if_true]
    simp only [show (false == true) = false from rfl, Bool.false_eq_true, if_false]
    exact ⟨by omega, fun h => by omega⟩

/-- If the cut does not lie inside of a field then it leaves all marks. -/
theorem marks_append_of_not_inside {s t : List UInt8} (h : ¬ Inside letter (s ++ t) s.length) :
    marks letter (s ++ t) = marks letter s ++ marks letter t := by
  rcases marks_append herr s t with hsplit | ⟨p, u, v, q, hu, hv, hall, hs, ht⟩
  · exact hsplit
  · exfalso
    apply h
    have hlen : s.length = p.length + u.length := by
      rw [← marks_length letter s, hs]
      simp
    have hpos : 0 < u.length := List.length_pos_iff.mpr hu
    have hpos' : 0 < v.length := List.length_pos_iff.mpr hv
    have hat : ∀ k, p.length ≤ k → k < p.length + (u.length + v.length) →
        (flags letter (s ++ t))[k]? = some true := by
      intro k hk hlt
      rw [flags, hall, List.getElem?_map, List.getElem?_append_left (by simp; omega),
        List.getElem?_append_right hk, List.getElem?_map, List.getElem?_eq_getElem (by simp; omega)]
      rfl
    exact ⟨by omega, hat _ (by omega) (by omega), hat _ (by omega) (by omega)⟩

/-- If no cut lies inside of a field, the fields are those of the pieces. -/
theorem fieldsFunc_flatten {cs : List (List UInt8)}
    (h : ∀ k, ¬ Inside letter cs.flatten (cs.take k).flatten.length) :
    cs.flatMap (fieldsFunc fun r => !letter r) = fieldsFunc (fun r => !letter r) cs.flatten := by
  induction cs with
  | nil => simp [fieldsFunc, runes_nil, fieldsLoop, emit]
  | cons c cs ih =>
    have hcut : ¬ Inside letter (c ++ cs.flatten) c.length := by simpa using h 1
    have hsplit := marks_append_of_not_inside herr hcut
    have hrest : ∀ k, ¬ Inside letter cs.flatten (cs.take k).flatten.length := by
      intro k hin
      apply h (k + 1)
      rw [List.flatten_cons, List.take_succ_cons, List.flatten_cons, List.length_append]
      exact (inside_append_right hsplit hin.1).mpr hin
    rw [inside_append hsplit] at hcut
    rw [List.flatMap_cons, List.flatten_cons, ih hrest, fieldsFunc_eq, fieldsFunc_eq, fieldsFunc_eq,
      hsplit, runs_append hcut]

/-- Pieces have no more letters and, if they have as many, no fewer fields. If they have as
many of both then no cut lies inside of a field. -/
theorem pieces_counts (cs : List (List UInt8)) :
    (cs.map fun c => (flags letter c).count true).sum ≤ (flags letter cs.flatten).count true ∧
    ((cs.map fun c => (flags letter c).count true).sum = (flags letter cs.flatten).count true →
      starts false (flags letter cs.flatten) ≤ (cs.map fun c => starts false (flags letter c)).sum ∧
      ((cs.map fun c => starts false (flags letter c)).sum =
        starts false (flags letter cs.flatten) →
        ∀ k, ¬ Inside letter cs.flatten (cs.take k).flatten.length)) := by
  induction cs with
  | nil =>
    refine ⟨Nat.zero_le _, fun _ => ⟨?_, fun _ k hin => ?_⟩⟩
    · simp [flags, marks_nil, starts]
    · simp [Inside] at hin
  | cons c cs ih =>
    obtain ⟨hle, heq⟩ := ih
    obtain ⟨hle', hsplit⟩ := count_append herr c cs.flatten
    simp only [List.map_cons, List.sum_cons, List.flatten_cons]
    refine ⟨by omega, fun hcount => ?_⟩
    have hsplit := hsplit (by omega)
    obtain ⟨hfields, hrest⟩ := heq (by omega)
    have hcut := starts_cut (flags letter c) (flags letter cs.flatten)
    rw [show flags letter c ++ flags letter cs.flatten =
      flags letter (c ++ cs.flatten) by simp [flags, hsplit],
      if_congr (inside_append hsplit).symm rfl rfl] at hcut
    refine ⟨by omega, fun hsame k => ?_⟩
    have hnot : ¬ Inside letter (c ++ cs.flatten) c.length := by
      intro hin
      rw [if_pos hin] at hcut
      omega
    rw [if_neg hnot] at hcut
    cases k with
    | zero => exact fun hin => absurd hin.1 (by simp)
    | succ k =>
      rw [List.take_succ_cons, List.flatten_cons, List.length_append]
      intro hin
      by_cases hp : (cs.take k).flatten.length = 0
      · rw [hp] at hin
        exact hnot hin
      · exact hrest (by omega) k ((inside_append_right hsplit (by omega)).mp hin)

/-- If the fields are those of the pieces, no cut lies inside of a field. -/
theorem not_inside_of_perm {cs : List (List UInt8)}
    (h : (cs.flatMap (fieldsFunc fun r => !letter r)).Perm
      (fieldsFunc (fun r => !letter r) cs.flatten)) (k : Nat) :
    ¬ Inside letter cs.flatten (cs.take k).flatten.length := by
  have htotal := (h.map List.length).sum_nat
  have hlength := h.length_eq
  rw [fieldsFunc_total, List.map_flatMap, List.flatMap, List.sum_flatten, List.map_map] at htotal
  rw [fieldsFunc_length, List.length_flatMap] at hlength
  simp only [Function.comp_def, fieldsFunc_total] at htotal
  simp only [fieldsFunc_length] at hlength
  obtain ⟨-, hfields⟩ := pieces_counts herr cs
  exact (hfields htotal).2 hlength k

end

end

end Lib.Utf8
