import Csc412.Shell.LoopSound

/-!
# When parsing a line is safe

Each argument of the line becomes an entry of `args`, the position of a string that is not
empty (`parseLoop_line`). The accesses after the loop need one entry, those of the loop at
most as many as there are: `parseCommand_safe_iff`.
-/

namespace Csc412.Shell

open Lib Lib.CString

/-! ## Entries of `args` -/

/-- `n` arguments are stored, each a string that `strtok` has passed. -/
structure Parsed (s : Strtok) (c : ParsedCommand) (n : Nat) : Prop where
  num : c.numArgs = n
  le : n ≤ maxArgs
  set : ∀ i : Fin maxArgs, i.val < n → ∃ p, c.args i = some p ∧ p < s.saved ∧ s.buffer.getD p 0 ≠ 0
  unset : ∀ i : Fin maxArgs, n ≤ i.val → c.args i = none

section
variable {s s' : Strtok} {c : ParsedCommand} {n p : Nat} {w : Bytes}

theorem parsed_null (s : Strtok) : Parsed s .null 0 where
  num := rfl
  le := Nat.zero_le _
  set _ hi := absurd hi (Nat.not_lt_zero _)
  unset _ _ := rfl

theorem strlen_pos {buf : Bytes} (h : buf.getD p 0 ≠ 0) : 0 < strlen buf p := by
  unfold strlen
  cases hd : buf.drop p with
  | nil =>
    have hlen : buf.length ≤ p := List.drop_eq_nil_iff.mp hd
    rw [List.getD_eq_getElem?_getD, List.getElem?_eq_none hlen] at h
    exact absurd rfl h
  | cons b l =>
    rw [getD_of_drop hd] at h
    rw [cstr, List.takeWhile_cons_of_pos (by simpa using h)]
    exact Nat.zero_lt_succ _

end

/-! ## The loop -/

/-- What the loop comes to when it finds `n` arguments. -/
def LoopResult (n : Nat) (result : Except Fault (Bytes × ParsedCommand)) : Prop :=
  if n ≤ maxArgs then ∃ s c, result = .ok (s.buffer, c) ∧ Parsed s c n
  else result = .error (.store maxArgs)

theorem Stored.parsed {s : Strtok} {c : ParsedCommand} {cmd : Token} {file : Option Token}
    {args : List Token} (h : Stored s c cmd file args) (hle : args.length ≤ maxArgs) :
    Parsed s c args.length where
  num := h.num
  le := hle
  set i hi := by
    have hmem : args[i.val] ∈ args := List.getElem_mem hi
    have hpos : 0 < args[i.val].2.length := List.length_pos_iff.mpr (h.word _ hmem)
    obtain ⟨hstr, hsaved⟩ := h.held args[i.val] (.inl (List.mem_cons_of_mem _ hmem))
    refine ⟨args[i.val].1, by rw [h.stored, List.getElem?_eq_getElem hi]; rfl, by omega, ?_⟩
    intro hzero
    have hfirst := hstr.getD hpos
    rw [Nat.add_zero, hzero] at hfirst
    exact hstr.ended (hfirst ▸ List.getElem_mem hpos)
  unset i hi := by rw [h.stored, List.getElem?_eq_none hi]; rfl

theorem parseLoop_line (line : Line) :
    LoopResult line.arguments.length
      (parseLoop line.buffer.length (Strtok.next space ⟨line.buffer, 0⟩).2
          (Strtok.next space ⟨line.buffer, 0⟩).1 .null) := by
  rw [← line.length_arguments, LoopResult]
  cases hts : line.tokens with
  | nil =>
    obtain ⟨s, hrun⟩ := parseLoop_empty hts
    exact (if_pos (Nat.zero_le _)).mpr ⟨s, .null, hrun, parsed_null s⟩
  | cons t ts =>
    have hloop := parseLoop_command hts
    rw [List.tail_cons]
    split
    · rename_i hle
      obtain ⟨s, c, hrun, hS⟩ := (if_pos hle).mp hloop
      exact ⟨s, c, hrun, hS.parsed hle⟩
    · rename_i hmany
      exact (if_neg hmany).mp hloop

/-! ## After the loop -/

section
variable {s : Strtok} {c : ParsedCommand} {n : Nat}

theorem Parsed.arg (h : Parsed s c n) {i : Nat} (hi : i < n) :
    ∃ p, c.arg i = .ok p ∧ 0 < strlen s.buffer p := by
  have hmax : i < maxArgs := Nat.lt_of_lt_of_le hi h.le
  obtain ⟨p, hp, -, hne⟩ := h.set ⟨i, hmax⟩ hi
  refine ⟨p, ?_, strlen_pos hne⟩
  unfold ParsedCommand.arg
  rw [dif_pos hmax, hp]

theorem Parsed.arg_unset (h : Parsed s c 0) : c.arg 0 = .error (.read 0) := by
  have hmax : 0 < maxArgs := by decide
  unfold ParsedCommand.arg
  rw [dif_pos hmax, h.unset ⟨0, hmax⟩ (le_refl _)]

theorem charAt_ok {buf : Bytes} {p j : Nat} (h : j < strlen buf p) :
    charAt buf p j = .ok (buf.getD (p + j) 0) := if_pos h

theorem setChar_ok {buf : Bytes} {p j : Nat} (h : j < strlen buf p) (c : UInt8) :
    setChar buf p j c = .ok (buf.set (p + j) c) := if_pos h

theorem removeQuotes_ok (h : Parsed s c n) (hn : 0 < n) :
    ∃ result, removeQuotes s.buffer c = .ok result := by
  obtain ⟨first, hfirst, hfirstPos⟩ := h.arg hn
  have hle : n ≤ 64 := h.le
  have hlast : (c.numArgs + (2 ^ 32 - 1)) % 2 ^ 32 = n - 1 := by
    rw [h.num]
    omega
  obtain ⟨last, hlastArg, hlastPos⟩ := h.arg (i := n - 1) (by omega)
  -- the string is not empty, so its last index does not wrap below zero
  obtain ⟨index, hindex⟩ : ∃ k, (strlen s.buffer last + (2 ^ 64 - 1)) % 2 ^ 64 % 2 ^ 32 = k :=
    ⟨_, rfl⟩
  have hinside : index < strlen s.buffer last := by omega
  unfold removeQuotes
  rw [hfirst, ok_bind, charAt_ok hfirstPos, ok_bind]
  dsimp only
  rw [hlast, hlastArg, ok_bind, hindex, charAt_ok hinside, ok_bind]
  split
  · rw [setChar_ok hinside]
    exact ⟨_, rfl⟩
  · exact ⟨_, rfl⟩

end

/-! ## The whole of `parse_command` -/

theorem parseCommand_eq (input : Bytes) :
    parseCommand input =
      parseLoop input.length (Strtok.next space ⟨input, 0⟩).2 (Strtok.next space ⟨input, 0⟩).1
        .null >>=
        fun result => removeQuotes result.1 result.2 := rfl

/-- Without an argument, `args[0]` is read although nothing was stored. -/
theorem parseCommand_none {line : Line} (h : line.arguments.length = 0) :
    parseCommand line.buffer = .error (.read 0) := by
  have hloop := parseLoop_line line
  rw [h] at hloop
  obtain ⟨s, c, hresult, hP⟩ := (if_pos (Nat.zero_le _)).mp hloop
  rw [parseCommand_eq, hresult, ok_bind]
  unfold removeQuotes
  rw [hP.arg_unset, error_bind]

theorem parseCommand_many {line : Line} (h : ¬ line.arguments.length ≤ maxArgs) :
    parseCommand line.buffer = .error (.store maxArgs) := by
  have hresult := (if_neg h).mp (parseLoop_line line)
  rw [parseCommand_eq, hresult, error_bind]

theorem parseCommand_ok {line : Line} (hpos : 1 ≤ line.arguments.length)
    (hle : line.arguments.length ≤ maxArgs) :
    ∃ result, parseCommand line.buffer = .ok result := by
  obtain ⟨s, c, hresult, hP⟩ := (if_pos hle).mp (parseLoop_line line)
  obtain ⟨result, hquotes⟩ := removeQuotes_ok hP hpos
  rw [parseCommand_eq, hresult, ok_bind]
  exact ⟨result, hquotes⟩

/-- Parsing makes no access out of bounds exactly when the line has an argument and no
more of them than `args` has entries. -/
theorem parseCommand_safe_iff (line : Line) :
    (∀ f, parseCommand line.buffer ≠ .error f) ↔ 1 ≤ line.arguments.length ∧
    line.arguments.length ≤ maxArgs := by
  constructor
  · intro h
    refine ⟨Nat.one_le_iff_ne_zero.mpr fun hzero => ?_, ?_⟩
    · exact h _ (parseCommand_none hzero)
    · by_contra hmany
      exact h _ (parseCommand_many hmany)
  · rintro ⟨hpos, hle⟩ f hf
    obtain ⟨result, hok⟩ := parseCommand_ok hpos hle
    rw [hok] at hf
    cases hf

def bareCommand : Line where
  text := [108, 115]
  rest := List.replicate 1021 0
  ended := by decide
  size := by rw [List.length_replicate]; rfl

theorem bareCommand_faults : ¬ ∀ f, parseCommand bareCommand.buffer ≠ .error f :=
  fun h => h _ (parseCommand_none (by decide))

end Csc412.Shell
