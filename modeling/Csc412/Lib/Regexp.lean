import Mathlib.Logic.Relation
import Mathlib.Data.List.Infix

/-!
# Regular expressions

Literal characters, decimal digits, one or more, groups and the two ends of the text, as
`regexp` of Go has them. A position in a text is what remains of it. What an expression
matches is a relation between positions, and `ends` computes it.
-/

namespace Lib

inductive Regexp where
  | empty
  | lit (c : Char)
  | digit
  | beginText
  | endText
  | seq (r t : Regexp)
  | plus (r : Regexp)

namespace Regexp

/-! ## Syntax -/

inductive Token where
  | char (c : Char)
  | digit
  | beginText
  | endText
  | plus
  | leftParen
  | rightParen

/-- A character by itself. The others of the syntax are not modelled. -/
def charToken (c : Char) : Option Token :=
  if c = '^' then some .beginText
  else if c = '$' then some .endText
  else if c = '+' then some .plus
  else if c = '(' then some .leftParen
  else if c = ')' then some .rightParen
  else if c ∈ ['\\', '.', '*', '?', '|', '[', ']', '\x7b', '\x7d'] then none
  else some (.char c)

def tokens : List Char → Option (List Token)
  | [] => some []
  | c :: cs =>
    if c = '\\' then
      match cs with
      | [] => none
      | d :: cs => if d = 'd' then (tokens cs).map (Token.digit :: ·) else none
    else do
      let t ← charToken c
      let ts ← tokens cs
      some (t :: ts)

def concat : List Regexp → Regexp
  | [] => .empty
  | r :: rs => .seq r (concat rs)

/-- The open groups, the innermost first, each with its items from the last one on. -/
def parseToken : List (List Regexp) → Token → Option (List (List Regexp))
  | g :: gs, .char c => some ((.lit c :: g) :: gs)
  | g :: gs, .digit => some ((.digit :: g) :: gs)
  | g :: gs, .beginText => some ((.beginText :: g) :: gs)
  | g :: gs, .endText => some ((.endText :: g) :: gs)
  -- `++` is an error
  | (.plus _ :: _) :: _, .plus => none
  | (r :: g) :: gs, .plus => some ((.plus r :: g) :: gs)
  | gs, .leftParen => some ([] :: gs)
  | g :: g' :: gs, .rightParen => some ((concat g.reverse :: g') :: gs)
  | _, _ => none

def compile (pattern : String) : Option Regexp := do
  let ts ← tokens pattern.toList
  match ← ts.foldlM parseToken [[]] with
  | [g] => some (concat g.reverse)
  | _ => none

/-! ## Literal characters -/

/-- The characters of a pattern that stand for themselves. -/
def Literal (c : Char) : Prop := charToken c = some (.char c)

theorem Literal.ne_backslash {c : Char} (h : Literal c) : c ≠ '\\' := by
  rintro rfl
  cases h

theorem tokens_cons {c : Char} (h : c ≠ '\\') (cs : List Char) :
    tokens (c :: cs) = (charToken c).bind fun t => (tokens cs).bind fun ts => some (t :: ts) := by
  rw [tokens.eq_def]
  simp only [if_neg h]
  rfl

theorem tokens_digit (cs : List Char) :
    tokens ('\\' :: 'd' :: cs) = (tokens cs).map (Token.digit :: ·) := rfl

theorem tokens_literals {cs : List Char} (hcs : ∀ c ∈ cs, Literal c) (rest : List Char) :
    tokens (cs ++ rest) = (tokens rest).map (cs.map Token.char ++ ·) := by
  induction cs with
  | nil => simp
  | cons c cs ih =>
    obtain ⟨hc, hcs⟩ := List.forall_mem_cons.mp hcs
    have htoken : charToken c = some (.char c) := hc
    rw [List.cons_append, tokens_cons hc.ne_backslash, htoken, ih hcs]
    cases tokens rest <;> rfl

theorem parse_literals (cs : List Char) (g : List Regexp) (gs : List (List Regexp))
    (ts : List Token) :
    (cs.map Token.char ++ ts).foldlM parseToken (g :: gs) = ts.foldlM parseToken
    (((cs.map lit).reverse ++ g) :: gs) := by
  induction cs generalizing g with
  | nil => rfl
  | cons c cs ih =>
    have hstep : (Token.char c :: (cs.map Token.char ++ ts)).foldlM parseToken (g :: gs) =
        (cs.map Token.char ++ ts).foldlM parseToken ((lit c :: g) :: gs) := rfl
    rw [List.map_cons, List.cons_append, hstep, ih, List.map_cons, List.reverse_cons,
      List.append_assoc]
    rfl

theorem digit_literal {d : Char} (h : d.isDigit = true) : Literal d := by
  have hne : ∀ c : Char, c.isDigit = false → d ≠ c := by
    rintro c hc rfl
    rw [hc] at h
    cases h
  have hother : d ∉ ['\\', '.', '*', '?', '|', '[', ']', '\x7b', '\x7d'] := by
    intro hmem
    have hnone : ∀ c ∈ ['\\', '.', '*', '?', '|', '[', ']', '\x7b', '\x7d'], c.isDigit = false := by
      simp only [List.forall_mem_cons, List.not_mem_nil, false_imp_iff, implies_true, and_true]
      decide
    exact hne d (hnone d hmem) rfl
  rw [Literal, charToken, if_neg (hne _ (by decide)), if_neg (hne _ (by decide)),
    if_neg (hne _ (by decide)),
    if_neg (hne _ (by decide)), if_neg (hne _ (by decide)), if_neg hother]

theorem compile_of_tokens {pattern : String} {ts : List Token} {g : List Regexp}
    (htokens : tokens pattern.toList = some ts) (hparse : ts.foldlM parseToken [[]] = some [g]) :
    compile pattern = some (concat g.reverse) := by
  rw [compile, htokens, Option.bind_eq_bind, Option.bind_some, hparse]
  rfl

/-! ## Matching -/

section
variable (text : List Char)

/-- The expression matches what is between two positions. -/
def Spans : Regexp → List Char → List Char → Prop
  | .empty, s, s' => s' = s
  | .lit c, s, s' => s = c :: s'
  | .digit, s, s' => ∃ c, c.isDigit = true ∧ s = c :: s'
  | .beginText, s, s' => s = text ∧ s' = s
  | .endText, s, s' => s = [] ∧ s' = s
  | .seq r t, s, s' => ∃ m, Spans r s m ∧ Spans t m s'
  | .plus r, s, s' => Relation.TransGen (Spans r) s s'

/-- One to `k` steps. -/
def iterate (step : List Char → List (List Char)) : Nat → List Char → List (List Char)
  | 0, _ => []
  | k + 1, s => (step s).flatMap fun m => m :: iterate step k m

def ends : Regexp → List Char → List (List Char)
  | .empty, s => [s]
  | .lit c, s => if s.head? = some c then [s.tail] else []
  | .digit, s => if s.head?.any Char.isDigit then [s.tail] else []
  | .beginText, s => if s = text then [s] else []
  | .endText, s => if s = [] then [s] else []
  | .seq r t, s => (ends r s).flatMap (ends t)
  | .plus r, s => iterate (ends r) (s.length + 1) s

/-- `MatchString`: somewhere in the text. -/
def matchString (re : Regexp) : Bool := text.tails.any fun s => !(ends text re s).isEmpty

end

section
variable {text : List Char} {step : List Char → List (List Char)} {R : List Char → List Char → Prop}

theorem Spans.suffix {re : Regexp} {s s' : List Char} (h : Spans text re s s') : s' <:+ s := by
  induction re generalizing s s' with
  | empty => exact h ▸ List.suffix_refl s
  | lit c => exact ⟨[c], h.symm⟩
  | digit =>
    obtain ⟨c, -, rfl⟩ := h
    exact List.suffix_cons c s'
  | beginText => exact h.2 ▸ List.suffix_refl s
  | endText => exact h.2 ▸ List.suffix_refl s
  | seq r t ihr iht =>
    obtain ⟨m, hr, ht⟩ := h
    exact (iht ht).trans (ihr hr)
  | plus r ih =>
    induction h with
    | single h => exact ih h
    | tail _ h ihs => exact (ih h).trans ihs

theorem iterate_steps (hstep : ∀ s m, m ∈ step s ↔ R s m) {k : Nat} {s s' : List Char}
    (h : s' ∈ iterate step k s) :
    Relation.TransGen R s s' := by
  induction k generalizing s with
  | zero => cases h
  | succ k ih =>
    obtain ⟨m, hm, hmem⟩ := List.mem_flatMap.mp h
    have hfirst := (hstep s m).mp hm
    obtain rfl | hrest := List.mem_cons.mp hmem
    · exact .single hfirst
    · exact .head hfirst (ih hrest)

/-- Steps in place are not needed, and the others leave less of the text. -/
theorem steps_iterate (hstep : ∀ s m, m ∈ step s ↔ R s m) (hsuffix : ∀ s m, R s m → m <:+ s)
    {s s' : List Char} (h : Relation.TransGen R s s') :
    ∀ {k : Nat}, s.length < k → s' ∈ iterate step k s := by
  induction h using Relation.TransGen.head_induction_on with
  | single h =>
    intro k hk
    obtain ⟨k, rfl⟩ := Nat.exists_eq_succ_of_ne_zero (Nat.ne_of_gt (Nat.zero_lt_of_lt hk))
    exact List.mem_flatMap.mpr ⟨s', (hstep _ _).mpr h, List.mem_cons_self⟩
  | @head s m h _ ih =>
    intro k hk
    obtain heq | hlt := Nat.eq_or_lt_of_le (hsuffix s m h).length_le
    · obtain rfl := (hsuffix s m h).eq_of_length heq
      exact ih hk
    · obtain ⟨k, rfl⟩ := Nat.exists_eq_succ_of_ne_zero (Nat.ne_of_gt (Nat.zero_lt_of_lt hk))
      have hmem := ih (Nat.lt_of_lt_of_le hlt (Nat.le_of_lt_succ hk))
      exact List.mem_flatMap.mpr ⟨m, (hstep _ _).mpr h, List.mem_cons_of_mem _ hmem⟩

theorem mem_ends {re : Regexp} {s s' : List Char} : s' ∈ ends text re s ↔ Spans text re s s' := by
  induction re generalizing s s' with
  | empty => exact List.mem_singleton
  | lit c =>
    cases s with
    | nil => simp [ends, Spans]
    | cons d s => by_cases h : d = c <;> simp [ends, Spans, h, eq_comm]
  | digit =>
    cases s with
    | nil => simp [ends, Spans]
    | cons d s =>
      have hspans : Spans text .digit (d :: s) s' ↔ d.isDigit = true ∧ s' = s := by
        constructor
        · intro ⟨c, hc, heq⟩
          cases heq
          exact ⟨hc, rfl⟩
        · intro ⟨hd, heq⟩
          exact ⟨d, hd, by rw [heq]⟩
      rw [hspans, ends]
      by_cases h : d.isDigit <;> simp [h]
  | beginText => by_cases h : s = text <;> simp [ends, Spans, h]
  | endText => by_cases h : s = [] <;> simp [ends, Spans, h]
  | seq r t ihr iht =>
    rw [ends, List.mem_flatMap]
    exact exists_congr fun m => and_congr ihr iht
  | plus r ih =>
    constructor
    · exact iterate_steps fun _ _ => ih
    · intro h
      exact steps_iterate (fun _ _ => ih) (fun _ _ => Spans.suffix) h (Nat.lt_succ_self _)

theorem matchString_iff {re : Regexp} :
    matchString text re = true ↔ ∃ s s', s <:+ text ∧ Spans text re s s' := by
  simp only [matchString, List.any_eq_true, List.mem_tails, Bool.not_eq_true',
    List.isEmpty_eq_false_iff_exists_mem, mem_ends]
  exact exists_congr fun s => exists_and_left.symm

/-! ## Concatenations -/

theorem spans_concat_append {rs ts : List Regexp} {s s' : List Char} :
    Spans text (concat (rs ++ ts)) s s' ↔ ∃ m, Spans text (concat rs) s m ∧
    Spans text (concat ts) m s' := by
  induction rs generalizing s with
  | nil => simp [concat, Spans]
  | cons r rs ih =>
    simp only [List.cons_append, concat, Spans, ih]
    constructor
    · intro ⟨a, hr, m, hrs, hts⟩
      exact ⟨m, ⟨a, hr, hrs⟩, hts⟩
    · intro ⟨m, ⟨a, hr, hrs⟩, hts⟩
      exact ⟨a, hr, m, hrs, hts⟩

theorem spans_concat_lits {cs : List Char} {s s' : List Char} :
    Spans text (concat (cs.map .lit)) s s' ↔ s = cs ++ s' := by
  induction cs generalizing s with
  | nil => simp [concat, Spans, eq_comm]
  | cons c cs ih => simp [concat, Spans, ih]

theorem spans_concat_single {r : Regexp} {s s' : List Char} :
    Spans text (concat [r]) s s' ↔ Spans text r s s' := by
  simp [concat, Spans]

theorem spans_beginText {s s' : List Char} : Spans text .beginText s s' ↔ s = text ∧ s' = s :=
  Iff.rfl

theorem spans_endText {s s' : List Char} : Spans text .endText s s' ↔ s = [] ∧ s' = s := Iff.rfl

theorem spans_digits {s s' : List Char} :
    Spans text (.plus .digit) s s' ↔ ∃ ds, ds ≠ [] ∧ (∀ d ∈ ds, d.isDigit = true) ∧
    s = ds ++ s' := by
  constructor
  · intro h
    induction h using Relation.TransGen.head_induction_on with
    | single h =>
      obtain ⟨c, hc, rfl⟩ := h
      exact ⟨[c], by simp, by simpa using hc, rfl⟩
    | head h _ ih =>
      obtain ⟨c, hc, rfl⟩ := h
      obtain ⟨ds, -, hds, rfl⟩ := ih
      exact ⟨c :: ds, List.cons_ne_nil _ _, List.forall_mem_cons.mpr ⟨hc, hds⟩, rfl⟩
  · rintro ⟨ds, hne, hds, rfl⟩
    induction ds with
    | nil => exact absurd rfl hne
    | cons d ds ih =>
      obtain ⟨hd, hds⟩ := List.forall_mem_cons.mp hds
      have hfirst : Spans text .digit (d :: ds ++ s') (ds ++ s') := ⟨d, hd, rfl⟩
      by_cases hnil : ds = []
      · subst hnil
        exact .single hfirst
      · exact .head hfirst (ih hnil hds)

end

end Regexp

end Lib
