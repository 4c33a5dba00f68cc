import Csc412.Lib.Fallible
import Csc412.Shell.Parse

/-!
# The loop over the words of a line

The words that `strtok` has passed are strings of their own in the buffer, and the command
points to them. The loop keeps this to the end of the line, or it finds one argument more than
`args` has room for (`parseLoop_tokens`).
-/

namespace Csc412.Shell

open Lib Lib.CString

/-! ## Words with their positions -/

abbrev Token := Nat × Bytes

def Line.tokens (line : Line) : List Token := wordsAt space 0 line.text

def argumentTokens : List Token → List Token
  | [] => []
  | [t] => if t.2 = redirect then [] else [t]
  | t :: u :: ts => if t.2 = redirect then argumentTokens ts else t :: argumentTokens (u :: ts)

/-- The word after the last `>`, or `file` if there is no `>`. -/
def target (file : Option Token) : List Token → Option Token
  | [] => file
  | [t] => if t.2 = redirect then none else file
  | t :: u :: ts => if t.2 = redirect then target (some u) ts else target file (u :: ts)

theorem argumentTokens_cons (t : Token) (ts : List Token) :
    argumentTokens (t :: ts) =
      if t.2 = redirect then argumentTokens ts.tail else t :: argumentTokens ts := by
  cases ts <;> rfl

theorem target_cons (file : Option Token) (t : Token) (ts : List Token) :
    target file (t :: ts) = if t.2 = redirect then target ts.head? ts.tail else target file ts := by
  cases ts <;> rfl

theorem map_argumentTokens (ts : List Token) :
    (argumentTokens ts).map Prod.snd = arguments (ts.map Prod.snd) := by
  fun_induction argumentTokens ts with
  | case1 => rfl
  | case2 t h => simp [arguments, h]
  | case3 t h => simp [arguments, h]
  | case4 t u ts h ih => simp [arguments, h, ih]
  | case5 t u ts h ih => simpa [arguments, h] using ih

theorem Line.map_arguments (line : Line) :
    (argumentTokens line.tokens.tail).map Prod.snd = line.arguments := by
  rw [map_argumentTokens, List.map_tail, Line.tokens, map_wordsAt]
  rfl

theorem Line.length_arguments (line : Line) :
    (argumentTokens line.tokens.tail).length = line.arguments.length := by
  rw [← line.map_arguments, List.length_map]

/-! ## The loop -/

def Before (t u : Token) : Prop := t.1 + t.2.length ≤ u.1

/-- The words that are passed are strings of their own, and the command points to them. -/
structure Stored (s : Strtok) (c : ParsedCommand) (cmd : Token) (file : Option Token)
    (args : List Token) : Prop where
  command : c.command = some cmd.1
  output : c.outputFile = file.map Prod.fst
  num : c.numArgs = args.length
  stored : ∀ i : Fin maxArgs, c.args i = args[i.val]?.map Prod.fst
  held : ∀ t, t ∈ cmd :: args ∨ t ∈ file → StrAt s.buffer t.1 t.2 ∧ t.1 + t.2.length ≤ s.saved
  word : ∀ t ∈ args, t.2 ≠ []
  ordered : (cmd :: args).Pairwise Before
  apart : ∀ f ∈ file, ∀ t ∈ args, Before t f ∨ Before f t
  size : s.buffer.length = maxInput

section
variable {s s' : Strtok} {c : ParsedCommand} {cmd t : Token} {file : Option Token}
    {args : List Token}

theorem held_mono (h : StrAt s.buffer t.1 t.2 ∧ t.1 + t.2.length ≤ s.saved)
    (hsaved : s.saved ≤ s'.saved) (hbefore : ∀ i ≤ s.saved, s'.buffer[i]? = s.buffer[i]?) :
    StrAt s'.buffer t.1 t.2 ∧ t.1 + t.2.length ≤ s'.saved :=
  ⟨h.1.frame fun j hj => hbefore _ (by omega), Nat.le_trans h.2 hsaved⟩

theorem Stored.mono (h : Stored s c cmd file args) (hsaved : s.saved ≤ s'.saved)
    (hbefore : ∀ i ≤ s.saved, s'.buffer[i]? = s.buffer[i]?)
    (hsize : s'.buffer.length = s.buffer.length) :
    Stored s' c cmd file args where
  command := h.command
  output := h.output
  num := h.num
  stored := h.stored
  held t ht := held_mono (h.held t ht) hsaved hbefore
  word := h.word
  ordered := h.ordered
  apart := h.apart
  size := hsize.trans h.size

theorem Stored.cut (h : Stored s c cmd file args) (hcut : Cut s t s') : Stored s' c cmd file args :=
  h.mono hcut.saved_le hcut.before hcut.length

/-- A word that is found comes after all that are passed. -/
theorem Stored.before (h : Stored s c cmd file args) (hcut : Cut s t s') {u : Token}
    (hu : u ∈ cmd :: args ∨ u ∈ file) :
    Before u t := Nat.le_trans (h.held u hu).2 hcut.le

theorem Stored.withOutput (h : Stored s c cmd file args) (hcut : Cut s t s') :
    Stored s' { c with outputFile := some t.1 } cmd (some t) args where
  command := h.command
  output := rfl
  num := h.num
  stored := h.stored
  held u hu := by
    rcases hu with hu | hu
    · exact (h.cut hcut).held u (.inl hu)
    · obtain rfl := Option.some.inj hu
      exact ⟨hcut.str, hcut.stop_le⟩
  word := h.word
  ordered := h.ordered
  apart f hf u hu := by
    obtain rfl := Option.some.inj hf
    exact .inl (h.before hcut (.inl (List.mem_cons_of_mem _ hu)))
  size := hcut.length.trans h.size

theorem Stored.noOutput (h : Stored s c cmd file args) :
    Stored s { c with outputFile := none } cmd none args where
  command := h.command
  output := rfl
  num := h.num
  stored := h.stored
  held u hu := h.held u (hu.imp_right fun hnone => absurd hnone (Option.not_mem_none u))
  word := h.word
  ordered := h.ordered
  apart f hf := absurd hf (Option.not_mem_none f)
  size := h.size

theorem Stored.push (h : Stored s c cmd file args) (hcut : Cut s t s') (hne : t.2 ≠ [])
    (hlt : args.length < maxArgs) :
    ∃ c', c.push t.1 = .ok c' ∧ Stored s' c' cmd file (args ++ [t]) := by
  have hnum : c.numArgs < maxArgs := by rw [h.num]; exact hlt
  have hmax : args.length < 64 := hlt
  unfold ParsedCommand.push
  rw [dif_pos hnum]
  refine ⟨_, rfl, h.command, h.output, ?_, fun i => ?_, fun u hu => ?_, ?_, ?_, fun f hf u hu => ?_,
    hcut.length.trans h.size⟩
  · dsimp only
    rw [h.num, List.length_append, List.length_singleton]
    omega
  · dsimp only
    by_cases hi : i.val = args.length
    · have hi' : i = ⟨c.numArgs, hnum⟩ := Fin.ext (hi.trans h.num.symm)
      rw [hi', Function.update_self]
      simp [h.num]
    · have hi' : i ≠ ⟨c.numArgs, hnum⟩ := fun heq => hi ((congrArg Fin.val heq).trans h.num)
      rw [Function.update_of_ne hi', h.stored i]
      rcases Nat.lt_or_gt_of_ne hi with hlt | hgt
      · rw [List.getElem?_append_left hlt]
      · rw [List.getElem?_eq_none (Nat.le_of_lt hgt), List.getElem?_eq_none (by simp; omega)]
  · rw [← List.cons_append, List.mem_append, List.mem_singleton] at hu
    rcases hu with (hu | rfl) | hu
    · exact (h.cut hcut).held u (.inl hu)
    · exact ⟨hcut.str, hcut.stop_le⟩
    · exact (h.cut hcut).held u (.inr hu)
  · intro u hu
    rcases List.mem_append.mp hu with hu | hu
    · exact h.word u hu
    · rw [List.mem_singleton.mp hu]
      exact hne
  · rw [← List.cons_append, List.pairwise_append]
    refine ⟨h.ordered, List.pairwise_singleton _ _, fun u hu v hv => ?_⟩
    rw [List.mem_singleton.mp hv]
    exact h.before hcut (.inl hu)
  · rcases List.mem_append.mp hu with hu | hu
    · exact h.apart f hf u hu
    · rw [List.mem_singleton.mp hu]
      exact .inr (h.before hcut (.inr hf))

theorem Stored.full (h : Stored s c cmd file args) (hle : args.length ≤ maxArgs)
    (hn : ¬ args.length < maxArgs) (p : Nat) :
    c.push p = .error (.store maxArgs) := by
  have hmax : args.length = maxArgs := Nat.le_antisymm hle (Nat.le_of_not_lt hn)
  unfold ParsedCommand.push
  rw [dif_neg (by rw [h.num]; exact hn), h.num, hmax]

end

/-- What the loop comes to when it finds the words `args`. -/
def LoopStored (result : Except Fault (Bytes × ParsedCommand)) (cmd : Token) (file : Option Token)
    (args : List Token) : Prop :=
  if args.length ≤ maxArgs then ∃ s c, result = .ok (s.buffer, c) ∧ Stored s c cmd file args
  else result = .error (.store maxArgs)

theorem parseLoop_none (fuel : Nat) (s : Strtok) (c : ParsedCommand) :
    parseLoop fuel s none c = .ok (s.buffer, c) := by
  cases fuel <;> rfl

theorem space_ne_zero : space ≠ 0 := by decide

/-- From a loop that has its command, with the words `ts` ahead. -/
theorem parseLoop_tokens : ∀ (ts : List Token) {s : Strtok} {r : Bytes} {c : ParsedCommand}
    {cmd : Token} {file : Option Token}
    {args : List Token} {fuel : Nat}, wordsAt space s.saved r = ts → s.Ahead r →
    Stored s c cmd file args →
    s.buffer.length ≤ fuel + s.saved → args.length ≤ maxArgs →
    LoopStored (parseLoop fuel (s.next space).2 (s.next space).1 c) cmd (target file ts)
      (args ++ argumentTokens ts)
  | [], s, r, c, cmd, file, args, fuel, hts, hA, hS, _, hmax => by
    obtain ⟨s', hnext, hbuf, hsaved, -⟩ := next_none hA (by rw [← map_wordsAt s.saved, hts]; rfl)
    rw [argumentTokens, List.append_nil, LoopStored, if_pos hmax]
    refine ⟨s', c, by rw [hnext, parseLoop_none], ?_⟩
    exact hS.mono hsaved (fun i _ => by rw [hbuf]) (by rw [hbuf])
  | t :: ts, s, r, c, cmd, file, args, fuel, hts, hA, hS, hfuel, hmax => by
    obtain ⟨s₁, r₁, hnext, hcut, hA₁, hts₁⟩ := next_token space_ne_zero hA hts
    have hne : t.2 ≠ [] := ne_nil_of_mem_wordsAt (by rw [hts]; exact List.mem_cons_self)
    have hlt := hA.saved_lt
    have hlt₁ := (hcut.found hne).lt
    have hle := hcut.le
    have hc : ¬ c.command = none := by
      rw [hS.command]
      exact Option.some_ne_none _
    obtain ⟨fuel, rfl⟩ : ∃ k, fuel = k + 1 := ⟨fuel - 1, by omega⟩
    have hfuel₁ : s₁.buffer.length ≤ fuel + s₁.saved := by
      rw [hcut.length]
      omega
    rw [hnext, argumentTokens_cons, target_cons]
    unfold parseLoop
    dsimp only
    rw [if_neg hc, hcut.str.cstr_eq]
    by_cases hw : t.2 = redirect
    · -- the word after `>` is the output file, if there is one
      rw [if_pos hw, if_pos hw, if_pos hw]
      cases ts with
      | nil =>
        obtain ⟨s₂, hnext₂, hbuf₂, hsaved₂, hA₂⟩ :=
          next_none hA₁ (by rw [← map_wordsAt s₁.saved, hts₁]; rfl)
        have hS₂ : Stored s₂ { c with outputFile := none } cmd none args :=
          ((hS.cut hcut).mono hsaved₂ (fun i _ => by rw [hbuf₂]) (by rw [hbuf₂])).noOutput
        have hfuel₂ : s₂.buffer.length ≤ fuel + s₂.saved := by
          rw [hbuf₂]
          omega
        rw [hnext₂]
        exact parseLoop_tokens [] (wordsAt_nil _) hA₂ hS₂ hfuel₂ hmax
      | cons u ts =>
        obtain ⟨s₂, r₂, hnext₂, hcut₂, hA₂, hts₂⟩ := next_token space_ne_zero hA₁ hts₁
        have hsaved₂ := hcut₂.saved_le
        have hfuel₂ : s₂.buffer.length ≤ fuel + s₂.saved := by
          rw [hcut₂.length]
          omega
        rw [hnext₂]
        exact parseLoop_tokens ts hts₂ hA₂ ((hS.cut hcut).withOutput hcut₂) hfuel₂ hmax
    · rw [if_neg hw, if_neg hw, if_neg hw]
      by_cases hlast : args.length < maxArgs
      · obtain ⟨c', hpush, hS'⟩ := hS.push hcut hne hlast
        have hrest := parseLoop_tokens ts hts₁ hA₁ hS' hfuel₁
          (by rw [List.length_append]; exact hlast)
        rw [List.append_assoc] at hrest
        rw [hpush]
        exact hrest
      · have hmany : ¬ (args ++ t :: argumentTokens ts).length ≤ maxArgs := by
          rw [List.length_append, List.length_cons]
          omega
        rw [hS.full hmax hlast, LoopStored, if_neg hmany]

/-! ## Lines -/

theorem Line.ahead (line : Line) : Strtok.Ahead ⟨line.buffer, 0⟩ line.text :=
  ⟨line.ended, line.rest, rfl⟩

theorem parseLoop_empty {line : Line} (hts : line.tokens = []) :
    ∃ s : Strtok, parseLoop line.buffer.length (Strtok.next space ⟨line.buffer, 0⟩).2
      (Strtok.next space ⟨line.buffer, 0⟩).1 .null =
      .ok (s.buffer, .null) := by
  obtain ⟨s, hnext, -, -, -⟩ :=
    next_none line.ahead (by rw [← map_wordsAt 0, ← Line.tokens, hts]; rfl)
  exact ⟨s, by rw [hnext, parseLoop_none]⟩

theorem parseLoop_command {line : Line} {t : Token} {ts : List Token}
    (hts : line.tokens = t :: ts) :
    LoopStored (parseLoop line.buffer.length (Strtok.next space ⟨line.buffer, 0⟩).2
      (Strtok.next space ⟨line.buffer, 0⟩).1 .null)
      t (target none ts) (argumentTokens ts) := by
  obtain ⟨s, r, hnext, hcut, hA, hts'⟩ := next_token space_ne_zero line.ahead hts
  have hne : t.2 ≠ [] :=
    ne_nil_of_mem_wordsAt (by rw [← Line.tokens, hts]; exact List.mem_cons_self)
  have hlt := (hcut.found hne).lt
  have hpos := line.ahead.saved_lt
  obtain ⟨fuel, hfuel⟩ : ∃ k, line.buffer.length = k + 1 :=
    ⟨line.buffer.length - 1, (Nat.succ_pred_eq_of_pos hpos).symm⟩
  have hsize : s.buffer.length = maxInput := by
    rw [hcut.length, ← line.size, Line.buffer, List.length_append, List.length_cons]
    omega
  have hS : Stored s { ParsedCommand.null with command := some t.1 } t none [] := by
    refine ⟨rfl, rfl, rfl, fun _ => rfl, fun u hu => ?_, fun _ hu => absurd hu List.not_mem_nil,
      List.pairwise_singleton _ _,
      fun f hf => absurd hf (Option.not_mem_none f), hsize⟩
    simp only [List.mem_singleton, Option.not_mem_none, or_false] at hu
    rw [hu]
    exact ⟨hcut.str, hcut.stop_le⟩
  have hfuel' : s.buffer.length ≤ fuel + s.saved := by
    rw [hcut.length]
    dsimp only
    omega
  have hrun := parseLoop_tokens ts hts' hA hS hfuel' (Nat.zero_le _)
  rw [hnext, hfuel]
  exact hrun

end Csc412.Shell
