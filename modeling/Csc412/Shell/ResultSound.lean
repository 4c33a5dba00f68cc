import Csc412.Shell.ParseSound

/-!
# What parsing a line returns

The strings behind the pointers that `parse_command` returns are the words of the line,
each where it was, but for a pair of quotes: `parseCommand_strings`.
-/

namespace Csc412.Shell

open Lib Lib.CString

/-! ## The quotes -/

/-- The first argument starts with a quote and the last one ends with one. -/
def Quoted (ws : List Bytes) : Prop :=
  ws.head?.bind List.head? = some quote ∧ ws.getLast?.bind List.getLast? = some quote

instance : DecidablePred Quoted := fun _ => inferInstanceAs (Decidable (_ ∧ _))

def unquoteWord (n i : Nat) (w : Bytes) : Bytes :=
  let w := if i + 1 = n then w.dropLast else w
  if i = 0 then w.tail else w

/-- The arguments without that pair of quotes. -/
def unquote (ws : List Bytes) : List Bytes :=
  if Quoted ws then ws.mapIdx (unquoteWord ws.length) else ws

section
variable {s : Strtok} {c : ParsedCommand} {cmd t last : Token} {file : Option Token}
    {args pre : List Token}

theorem Stored.arg (h : Stored s c cmd file args) (hle : args.length ≤ maxArgs) {i : Nat}
    (hi : args[i]? = some t) :
    c.arg i = .ok t.1 := by
  have hlt : i < args.length := (List.getElem?_eq_some_iff.mp hi).1
  have hmax : i < maxArgs := Nat.lt_of_lt_of_le hlt hle
  have hstored : c.args ⟨i, hmax⟩ = some t.1 := by rw [h.stored, hi]; rfl
  unfold ParsedCommand.arg
  rw [dif_pos hmax, hstored]

theorem charAt_str {buf w : Bytes} {p j : Nat} (h : StrAt buf p w) (hj : j < w.length) :
    charAt buf p j = .ok w[j] := by
  rw [charAt_ok (by rw [strlen, h.cstr_eq]; exact hj), h.getD hj]

/-- The byte before the end of `last` is the one that `parse_command` looks at. -/
theorem removeQuotes_eq (h : Stored s c cmd file (pre ++ [last]))
    (hle : (pre ++ [last]).length ≤ maxArgs) (hfirst : (pre ++ [last])[0]? = some t) :
    removeQuotes s.buffer c =
      if t.2.head? = some quote ∧ last.2.getLast? = some quote then
        .ok (s.buffer.set (last.1 + (last.2.length - 1)) 0,
          { c with args := Function.update c.args ⟨0, by decide⟩ (some (t.1 + 1)) })
      else .ok (s.buffer, c) := by
  have hmem : t ∈ pre ++ [last] := List.mem_of_getElem? hfirst
  have hmax : (pre ++ [last]).length ≤ 64 := hle
  have hlast : last ∈ pre ++ [last] := List.mem_append_right _ List.mem_cons_self
  obtain ⟨hstr, -⟩ := h.held t (.inl (List.mem_cons_of_mem _ hmem))
  obtain ⟨hstrLast, hsaved⟩ := h.held last (.inl (List.mem_cons_of_mem _ hlast))
  have hpos : 0 < t.2.length := List.length_pos_iff.mpr (h.word t hmem)
  have hposLast : 0 < last.2.length := List.length_pos_iff.mpr (h.word last hlast)
  have hindex : (c.numArgs + (2 ^ 32 - 1)) % 2 ^ 32 = pre.length := by
    rw [List.length_append, List.length_singleton] at hmax
    rw [h.num, List.length_append, List.length_singleton]
    omega
  have hinside : last.2.length < 1024 := by
    have hend := hstrLast.getElem? (Nat.le_refl _)
    have hlt : last.1 + last.2.length < s.buffer.length := by
      by_contra hge
      rw [List.getElem?_eq_none (Nat.le_of_not_lt hge)] at hend
      simp at hend
    have hsize : s.buffer.length = 1024 := h.size
    omega
  have hlastIndex : (strlen s.buffer last.1 + (2 ^ 64 - 1)) % 2 ^ 64 % 2 ^ 32 =
      last.2.length - 1 := by
    rw [strlen, hstrLast.cstr_eq]
    omega
  have hnum : 0 < c.numArgs := by
    rw [h.num, List.length_append]
    exact Nat.lt_add_left _ Nat.zero_lt_one
  unfold removeQuotes
  rw [h.arg hle hfirst, ok_bind, charAt_str hstr hpos, ok_bind]
  dsimp only
  rw [hindex, h.arg hle (List.getElem?_concat_length ..), ok_bind, hlastIndex,
    charAt_str hstrLast (Nat.sub_lt hposLast Nat.zero_lt_one),
    ok_bind, setChar_ok (by rw [strlen, hstrLast.cstr_eq]; omega), ok_bind]
  have hhead : t.2.head? = some t.2[0] := by
    rw [List.head?_eq_getElem?, List.getElem?_eq_getElem hpos]
  have hend : last.2.getLast? = some last.2[last.2.length - 1] := by
    rw [List.getLast?_eq_getElem?, List.getElem?_eq_getElem]
  simp only [hnum, true_and, hhead, hend, Option.some.injEq]

def string (buf : Bytes) (p : Nat) : Bytes := cstr (buf.drop p)

/-- A string in an entry of `args` lies inside of its word. -/
inductive ArgAt (buf : Bytes) : Option Nat → Option Token → Option Bytes → Prop
  | unset : ArgAt buf none none none
  | set {p : Nat} {t : Token} {w : Bytes} (str : StrAt buf p w) (le : t.1 ≤ p)
    (stop_le : p + w.length ≤ t.1 + t.2.length) :
      ArgAt buf (some p) (some t) (some w)

theorem ArgAt.string_eq {buf : Bytes} {p : Option Nat} {t : Option Token} {w : Option Bytes}
    (h : ArgAt buf p t w) :
    p.map (string buf) = w := by
  cases h with
  | unset => rfl
  | set str _ _ => exact congrArg some str.cstr_eq

theorem ArgAt.inside {buf : Bytes} {p : Nat} {t : Option Token} {w : Option Bytes}
    (h : ArgAt buf (some p) t w) :
    ∃ u, t = some u ∧ u.1 ≤ p ∧ p + (string buf p).length ≤ u.1 + u.2.length := by
  cases h with
  | set str le stop_le => exact ⟨_, rfl, le, by rw [string, str.cstr_eq]; exact stop_le⟩

theorem Stored.kept (h : Stored s c cmd file (pre ++ [last])) (ht : t = cmd ∨ t ∈ pre ∨ t ∈ file) :
    StrAt (s.buffer.set (last.1 + (last.2.length - 1)) 0) t.1 t.2 := by
  have hlast : last ∈ pre ++ [last] := List.mem_append_right _ List.mem_cons_self
  have hordered := h.ordered
  rw [← List.cons_append, List.pairwise_append] at hordered
  have hstr : StrAt s.buffer t.1 t.2 ∧ t.1 + t.2.length ≤ s.saved := by
    apply h.held
    rcases ht with rfl | ht | ht
    · exact .inl List.mem_cons_self
    · exact .inl (List.mem_cons_of_mem _ (List.mem_append_left _ ht))
    · exact .inr ht
  have hapart : t.1 + t.2.length ≤ last.1 ∨ last.1 + last.2.length ≤ t.1 := by
    rcases ht with rfl | ht | ht
    · exact .inl (hordered.2.2 _ List.mem_cons_self _ List.mem_cons_self)
    · exact .inl (hordered.2.2 _ (List.mem_cons_of_mem _ ht) _ List.mem_cons_self)
    · exact (h.apart t ht last hlast).symm
  exact hstr.1.set_apart (h.held last (.inl (List.mem_cons_of_mem _ hlast))).1
    (h.word last hlast) hapart

theorem argAt_unquoted (h : Stored s c cmd file (pre ++ [last])) {i : Nat}
    (hi : (pre ++ [last])[i]? = some t) :
    ArgAt (s.buffer.set (last.1 + (last.2.length - 1)) 0) (some (if i = 0 then t.1 + 1 else t.1))
      (some t)
      (some (unquoteWord (pre ++ [last]).length i t.2)) := by
  have hmem : t ∈ pre ++ [last] := List.mem_of_getElem? hi
  have hne := h.word t hmem
  have hpos : 0 < t.2.length := List.length_pos_iff.mpr hne
  have hlen : (pre ++ [last]).length = pre.length + 1 := by
    rw [List.length_append, List.length_singleton]
  rw [hlen]
  rcases Nat.lt_trichotomy i pre.length with hlt | rfl | hgt
  · rw [List.getElem?_append_left hlt] at hi
    have hstr := h.kept (.inr (.inl (List.mem_of_getElem? hi)))
    have hnot : ¬ i + 1 = pre.length + 1 := by omega
    rw [unquoteWord, if_neg hnot]
    by_cases hzero : i = 0
    · rw [if_pos hzero, if_pos hzero]
      obtain ⟨b, w, hw⟩ := List.exists_cons_of_ne_nil hne
      rw [hw] at hstr
      refine .set ?_ (Nat.le_succ _) (by rw [hw, List.tail_cons, List.length_cons]; omega)
      rw [hw]
      exact hstr.tail
    · rw [if_neg hzero, if_neg hzero]
      exact .set hstr (Nat.le_refl _) (Nat.le_refl _)
  · have hlast : t = last := by
      rw [List.getElem?_concat_length] at hi
      exact (Option.some.inj hi).symm
    obtain ⟨hstr, -⟩ := h.held t (.inl (List.mem_cons_of_mem _ hmem))
    rw [unquoteWord, if_pos rfl, ← hlast]
    by_cases hzero : pre.length = 0
    · rw [if_pos hzero, if_pos hzero]
      refine .set (hstr.dropLast_tail hne) (Nat.le_succ _) ?_
      rw [List.length_tail, List.length_dropLast]
      omega
    · rw [if_neg hzero, if_neg hzero]
      refine .set (hstr.dropLast hne) (Nat.le_refl _) ?_
      rw [List.length_dropLast]
      omega
  · rw [List.getElem?_eq_none (by rw [hlen]; omega)] at hi
    cases hi

theorem quoted_iff {first : Token} (hfirst : (pre ++ [last])[0]? = some first) :
    Quoted ((pre ++ [last]).map Prod.snd) ↔ first.2.head? = some quote ∧
    last.2.getLast? = some quote := by
  rw [Quoted, List.head?_map, List.head?_eq_getElem?, hfirst, List.getLast?_map,
    List.getLast?_concat]
  rfl

theorem removeQuotes_strings (h : Stored s c cmd file args) (hle : args.length ≤ maxArgs)
    (hne : args ≠ []) :
    ∃ buf c', removeQuotes s.buffer c = .ok (buf, c') ∧ c'.command = c.command ∧
    c'.outputFile = c.outputFile ∧
      c'.numArgs = c.numArgs ∧ (∀ t, t = cmd ∨ t ∈ file → StrAt buf t.1 t.2) ∧
      ∀ i : Fin maxArgs, ArgAt buf (c'.args i) args[i.val]?
          (unquote (args.map Prod.snd))[i.val]? := by
  obtain ⟨pre, last, rfl⟩ := args.eq_nil_or_concat'.resolve_left hne
  obtain ⟨first, hfirst⟩ : ∃ first, (pre ++ [last])[0]? = some first := by
    cases pre with
    | nil => exact ⟨last, rfl⟩
    | cons first pre => exact ⟨first, rfl⟩
  rw [removeQuotes_eq h hle hfirst]
  by_cases hquoted : first.2.head? = some quote ∧ last.2.getLast? = some quote
  · rw [if_pos hquoted, unquote, if_pos ((quoted_iff hfirst).mpr hquoted)]
    refine ⟨_, _, rfl, rfl, rfl, rfl, fun t ht => h.kept (ht.imp_right .inr), fun i => ?_⟩
    rw [List.getElem?_mapIdx, List.getElem?_map, List.length_map]
    cases hi : (pre ++ [last])[i.val]? with
    | none =>
      have hzero : i ≠ ⟨0, by decide⟩ := by
        rintro rfl
        rw [hfirst] at hi
        cases hi
      dsimp only
      rw [Function.update_of_ne hzero, h.stored, hi]
      exact .unset
    | some t =>
      have hentry : Function.update c.args ⟨0, by decide⟩ (some (first.1 + 1)) i =
          some (if i.val = 0 then t.1 + 1 else t.1) := by
        by_cases hzero : i.val = 0
        · have hi₀ : i = ⟨0, by decide⟩ := Fin.ext hzero
          rw [hzero, hfirst, Option.some.injEq] at hi
          rw [if_pos hzero, hi₀, Function.update_self, hi]
        · have hi₀ : i ≠ ⟨0, by decide⟩ := fun heq => hzero (congrArg Fin.val heq)
          rw [if_neg hzero, Function.update_of_ne hi₀, h.stored, hi]
          rfl
      dsimp only
      rw [hentry]
      exact argAt_unquoted h hi
  · rw [if_neg hquoted, unquote, if_neg (mt (quoted_iff hfirst).mp hquoted)]
    refine ⟨_, _, rfl, rfl, rfl, rfl, fun t ht => ?_, fun i => ?_⟩
    · rcases ht with rfl | ht
      · exact (h.held t (.inl List.mem_cons_self)).1
      · exact (h.held t (.inr ht)).1
    · rw [h.stored, List.getElem?_map]
      cases hi : (pre ++ [last])[i.val]? with
      | none => exact .unset
      | some t =>
        have hmem : t ∈ pre ++ [last] := List.mem_of_getElem? hi
        exact .set (h.held t (.inl (List.mem_cons_of_mem _ hmem))).1 (Nat.le_refl _) (Nat.le_refl _)

end

/-! ## The whole of `parse_command` -/

theorem parseLoop_stored {line : Line} (hpos : 1 ≤ line.arguments.length)
    (hle : line.arguments.length ≤ maxArgs) :
    ∃ s c cmd, line.tokens.head? = some cmd ∧
      parseLoop line.buffer.length (Strtok.next space ⟨line.buffer, 0⟩).2
        (Strtok.next space ⟨line.buffer, 0⟩).1 .null =
        .ok (s.buffer, c) ∧
      Stored s c cmd (target none line.tokens.tail) (argumentTokens line.tokens.tail) := by
  rw [← line.length_arguments] at hpos hle
  cases hts : line.tokens with
  | nil =>
    rw [hts] at hpos
    cases hpos
  | cons t ts =>
    rw [hts] at hle
    obtain ⟨s, c, hrun, hS⟩ := (if_pos hle).mp (parseLoop_command hts)
    exact ⟨s, c, t, rfl, hrun, hS⟩

/-- The strings of the result are the words of the line, and each argument lies inside of
its own word. -/
theorem parseCommand_strings (line : Line) (hpos : 1 ≤ line.arguments.length)
    (hle : line.arguments.length ≤ maxArgs) :
    ∃ buf c, parseCommand line.buffer = .ok (buf, c) ∧
      c.command.map (string buf) = line.tokens.head?.map Prod.snd ∧
      c.outputFile.map (string buf) = (target none line.tokens.tail).map Prod.snd ∧
      c.numArgs = line.arguments.length ∧
      (∀ i : Fin maxArgs, (c.args i).map (string buf) = (unquote line.arguments)[i.val]?) ∧
      ∀ (i : Fin maxArgs) p, c.args i = some p → ∃ t, (argumentTokens line.tokens.tail)[i.val]? =
        some t ∧
        t.1 ≤ p ∧ p + (string buf p).length ≤ t.1 + t.2.length := by
  obtain ⟨s, c, cmd, hcmd, hloop, hS⟩ := parseLoop_stored hpos hle
  have hlen := congrArg List.length line.map_arguments
  rw [List.length_map] at hlen
  have hne : argumentTokens line.tokens.tail ≠ [] := by
    apply List.ne_nil_of_length_pos
    rw [hlen]
    exact hpos
  obtain ⟨buf, c', hquotes, hcommand, houtput, hnum, hkept, hargs⟩ :=
    removeQuotes_strings hS (by rw [hlen]; exact hle) hne
  rw [line.map_arguments] at hargs
  refine ⟨buf, c', ?_, ?_, ?_, by rw [hnum, hS.num, hlen], fun i => (hargs i).string_eq,
    fun i p hp => ?_⟩
  · rw [parseCommand_eq, hloop, ok_bind]
    exact hquotes
  · rw [hcommand, hS.command, hcmd]
    exact congrArg some (hkept cmd (.inl rfl)).cstr_eq
  · rw [houtput, hS.output]
    cases hfile : target none line.tokens.tail with
    | none => rfl
    | some f => exact congrArg some (hkept f (.inr hfile)).cstr_eq
  · have harg := hargs i
    rw [hp] at harg
    exact harg.inside

def quotedCommand : Line where
  text := [108, 115, 32, 34, 98, 34, 32, 62, 32, 102]
  rest := List.replicate 1013 0
  ended := by decide
  size := by rw [List.length_replicate]; rfl

theorem parseCommand_strings_quoted : ∃ buf c, parseCommand quotedCommand.buffer = .ok (buf, c) ∧
    c.outputFile.map (string buf) = some [102] ∧ (c.args ⟨0, by decide⟩).map (string buf) =
        some [98] := by
  obtain ⟨buf, c, hrun, -, hfile, -, hargs, -⟩ :=
    parseCommand_strings quotedCommand (by decide) (by decide)
  refine ⟨buf, c, hrun, ?_, ?_⟩
  · rw [hfile]
    decide
  · rw [hargs]
    decide

end Csc412.Shell
