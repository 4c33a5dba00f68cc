import Csc412.Inklings.LineSound

/-!
# What a line does

A line longer than the buffer is read in pieces, and each piece is taken for a line. A file
is run line by line (`loadLoop_join`), and a piece either opens a section, sets a key of the
current one or does nothing.
-/

namespace Csc412.Inklings
open Lib.CString

/-! ## Pieces -/

/-- What `fgets` reads of a line, one buffer after another. -/
def pieces (line : Bytes) : List Bytes :=
  if _h : line = [] then [] else line.take 511 :: pieces (line.drop 511)
termination_by line.length
decreasing_by
  have hpos := List.length_pos_iff.mpr _h
  rw [List.length_drop]
  omega

def runLine (st : Loader) (line : Bytes) : Loader := (pieces line).foldl processLine st

theorem pieces_nil : pieces [] = [] := by
  rw [pieces, dif_pos rfl]

theorem pieces_cons {line : Bytes} (hne : line ≠ []) :
    pieces line = line.take 511 :: pieces (line.drop 511) := by
  rw [pieces, dif_neg hne]

theorem pieces_short {line : Bytes} (hne : line ≠ []) (hlen : line.length ≤ 511) :
    pieces line = [line] := by
  rw [pieces_cons hne, List.take_of_length_le hlen, List.drop_of_length_le hlen, pieces_nil]

theorem pieces_flatten (line : Bytes) : (pieces line).flatten = line := by
  induction hn : line.length using Nat.strong_induction_on generalizing line with
  | _ n ih =>
    by_cases hne : line = []
    · rw [hne, pieces_nil]
      rfl
    · have hpos := List.length_pos_iff.mpr hne
      rw [pieces_cons hne, List.flatten_cons, ih _ (by rw [List.length_drop]; omega) _ rfl,
        List.take_append_drop]

theorem processLine_nil (st : Loader) : processLine st [] = st := rfl

theorem runLine_cons (st : Loader) {line : Bytes} (hne : line ≠ []) :
    runLine st line = runLine (processLine st (line.take 511)) (line.drop 511) := by
  rw [runLine, pieces_cons hne, List.foldl_cons]
  rfl

theorem runLine_short (st : Loader) {line : Bytes} (hlen : line.length ≤ 511) :
    runLine st line = processLine st line := by
  by_cases hne : line = []
  · rw [hne, processLine_nil, runLine, pieces_nil]
    rfl
  · rw [runLine, pieces_short hne hlen]
    rfl

theorem foldl_short {lines : List Bytes} (hlen : ∀ line ∈ lines, line.length ≤ 511) (st : Loader) :
    lines.foldl runLine st = lines.foldl processLine st := by
  induction lines generalizing st with
  | nil => rfl
  | cons line lines ih =>
    rw [List.foldl_cons, List.foldl_cons, runLine_short st (hlen line List.mem_cons_self)]
    exact ih (fun l hl => hlen l (List.mem_cons_of_mem _ hl)) _

/-! ## Files -/

theorem loadLoop_line {line : Bytes} (hline : newline ∉ line) (st : Loader) (rest : Bytes) :
    loadLoop st (line ++ newline :: rest) = loadLoop (runLine st line) rest := by
  induction hn : line.length using Nat.strong_induction_on generalizing line st with
  | _ n ih =>
    have hne : line ++ newline :: rest ≠ [] := by simp
    rw [loadLoop, dif_neg hne]
    by_cases hlen : line.length < 511
    · rw [fgets_line hline rest hlen, processLine_newline, runLine_short st (Nat.le_of_lt hlen)]
    · have hfull : line ≠ [] := by
        rintro rfl
        exact hlen (by decide)
      rw [fgets_full hline _ (Nat.le_of_not_lt hlen), runLine_cons st hfull]
      exact ih _ (by rw [List.length_drop]; omega)
        (fun hmem => hline (List.mem_of_mem_drop hmem)) _ rfl

theorem loadLoop_last {line : Bytes} (hline : newline ∉ line) (st : Loader) :
    loadLoop st line = runLine st line := by
  induction hn : line.length using Nat.strong_induction_on generalizing line st with
  | _ n ih =>
    rw [loadLoop]
    by_cases hne : line = []
    · rw [dif_pos hne, hne, runLine, pieces_nil]
      rfl
    · have hpos := List.length_pos_iff.mpr hne
      rw [dif_neg hne, fgets_free hline, runLine_cons st hne]
      exact ih _ (by rw [List.length_drop]; omega)
        (fun hmem => hline (List.mem_of_mem_drop hmem)) _ rfl

/-- The lines with newlines between them. The last one may be empty. -/
def join (lines : List Bytes) : Bytes := [newline].intercalate lines

theorem loadLoop_join {lines : List Bytes} (hlines : ∀ line ∈ lines, newline ∉ line) (st : Loader) :
    loadLoop st (join lines) = lines.foldl runLine st := by
  induction lines generalizing st with
  | nil =>
    rw [loadLoop]
    exact dif_pos rfl
  | cons line lines ih =>
    cases lines with
    | nil =>
      exact (congrArg (loadLoop st) (by simp [join])).trans
        (loadLoop_last (hlines line List.mem_cons_self) st)
    | cons next lines =>
      have hjoin : join (line :: next :: lines) = line ++ newline :: join (next :: lines) := by
        rw [join, List.intercalate_cons_cons, List.append_assoc]
        rfl
      rw [hjoin, loadLoop_line (hlines line List.mem_cons_self)]
      exact ih (fun l hl => hlines l (List.mem_cons_of_mem _ hl)) _

theorem loadConfig_join {lines : List Bytes} (hlines : ∀ line ∈ lines, newline ∉ line) :
    loadConfig (some (join lines)) = some (lines.foldl runLine ⟨.none, .zero⟩).cfg :=
  congrArg (fun st : Loader => some st.cfg) (loadLoop_join hlines _)

/-! ## Keys -/

def sectionKeys : Section → List Bytes
  | .logs => [str "dir", str "actions"]
  | .simulation => [str "default_rows", str "default_cols", str "min_rows", str "min_cols",
    str "min_threads", str "default_threads", str "draw_colored_traveler_heads"]
  | .ink => [str "max_level", str "max_add_ink", str "refill_ink", str "initial_red_level",
    str "initial_green_level", str "initial_blue_level"]
  | .timing => [str "min_producer_sleep_us", str "producer_sleep_us", str "inkling_sleep_us",
    str "inkling_sleep_step_us", str "inkling_sleep_min_us", str "inkling_sleep_max_us",
    str "arg_warning_sleep_s", str "shutdown_delay_s", str "event_loop_interval_ms",
    str "event_loop_sleep_s"]
  | .eventLoop => [str "max_recursive_depth"]
  | .producers => [str "speedup_factor_num", str "speedup_factor_den", str "slowdown_factor_num",
    str "slowdown_factor_den"]
  | .io => [str "pipe_path"]
  | .uiIcon => [str "north", str "west", str "south", str "east", str "none"]
  | .uiMessages => [str "ink_tank_header", str "live_threads_label", str "no_args_message",
    str "quit_no_threads_message", str "quit_esc_message", str "quit_generic_message"]
  | .none => []
  | .ui => []

theorem dispatch_unknown {s : Section} {key : Bytes} (h : key ∉ sectionKeys s) (c : AppConfig)
    (value : Bytes) :
    dispatch c s key value = c := by
  cases s <;> simp only [sectionKeys, List.mem_cons, List.not_mem_nil, or_false, not_or] at h
  · rfl
  · simp only [dispatch, logsKey, h, if_false]
  · simp only [dispatch, simulationKey, h, if_false]
  · simp only [dispatch, inkKey, h, if_false]
  · simp only [dispatch, timingKey, h, if_false]
  · simp only [dispatch, eventLoopKey, h, if_false]
  · simp only [dispatch, producersKey, h, if_false]
  · simp only [dispatch, ioKey, h, if_false]
  · rfl
  · simp only [dispatch, iconKey, h, if_false]
  · simp only [dispatch, messagesKey, h, if_false]

/-- The second of two values counts. -/
def Overwrites {C : Type} (f : C → Bytes → C) : Prop :=
  ∀ c value value', f (f c value) value' = f c value'

theorem Overwrites.ite {C : Type} {p : Prop} [Decidable p] {f g : C → Bytes → C} (hf : Overwrites f)
    (hg : Overwrites g) :
    Overwrites fun c value => if p then f c value else g c value := by
  intro c value value'
  by_cases h : p
  · simp only [if_pos h, hf c value value']
  · simp only [if_neg h, hg c value value']

section
variable (key : Bytes)

theorem logsKey_overwrites : Overwrites fun c value => logsKey c key value := by
  unfold logsKey
  repeat' apply Overwrites.ite
  all_goals exact fun _ _ _ => rfl

theorem simulationKey_overwrites : Overwrites fun c value => simulationKey c key value := by
  unfold simulationKey
  repeat' apply Overwrites.ite
  all_goals exact fun _ _ _ => rfl

theorem inkKey_overwrites : Overwrites fun c value => inkKey c key value := by
  unfold inkKey
  repeat' apply Overwrites.ite
  all_goals exact fun _ _ _ => rfl

theorem timingKey_overwrites : Overwrites fun c value => timingKey c key value := by
  unfold timingKey
  repeat' apply Overwrites.ite
  all_goals exact fun _ _ _ => rfl

theorem eventLoopKey_overwrites : Overwrites fun c value => eventLoopKey c key value := by
  unfold eventLoopKey
  repeat' apply Overwrites.ite
  all_goals exact fun _ _ _ => rfl

theorem producersKey_overwrites : Overwrites fun c value => producersKey c key value := by
  unfold producersKey
  repeat' apply Overwrites.ite
  all_goals exact fun _ _ _ => rfl

theorem ioKey_overwrites : Overwrites fun c value => ioKey c key value := by
  unfold ioKey
  repeat' apply Overwrites.ite
  all_goals exact fun _ _ _ => rfl

theorem iconKey_overwrites : Overwrites fun c value => iconKey c key value := by
  unfold iconKey
  repeat' apply Overwrites.ite
  all_goals exact fun _ _ _ => rfl

theorem messagesKey_overwrites : Overwrites fun c value => messagesKey c key value := by
  unfold messagesKey
  repeat' apply Overwrites.ite
  all_goals exact fun _ _ _ => rfl

theorem dispatch_overwrites (s : Section) : Overwrites fun c value => dispatch c s key value := by
  intro c value value'
  cases s with
  | none => rfl
  | logs =>
    exact congrArg (fun x => { c with logs := x }) (logsKey_overwrites key c.logs value value')
  | simulation =>
    exact congrArg (fun x => { c with simulation := x })
      (simulationKey_overwrites key c.simulation value value')
  | ink => exact congrArg (fun x => { c with ink := x }) (inkKey_overwrites key c.ink value value')
  | timing =>
    exact congrArg (fun x => { c with timing := x })
      (timingKey_overwrites key c.timing value value')
  | eventLoop =>
    exact congrArg (fun x => { c with event_loop := x })
      (eventLoopKey_overwrites key c.event_loop value value')
  | producers =>
    exact congrArg (fun x => { c with producers := x })
      (producersKey_overwrites key c.producers value value')
  | io => exact congrArg (fun x => { c with io := x }) (ioKey_overwrites key c.io value value')
  | ui => rfl
  | uiIcon =>
    exact congrArg (fun x => { c with ui := { c.ui with icon_directions := x } })
      (iconKey_overwrites key c.ui.icon_directions value value')
  | uiMessages =>
    exact congrArg (fun x => { c with ui := { c.ui with messages := x } })
      (messagesKey_overwrites key c.ui.messages value value')

end

/-! ## Headers and keys -/

def lineKey (p : Bytes) : Bytes := trim (p.takeWhile (· ≠ 58))

def lineValue (p : Bytes) : Bytes := stripQuotes (trim (p.dropWhile (· ≠ 58)).tail)

def Header (piece : Bytes) : Prop :=
  let p := trim (cstr piece)
  (topLevel p).isSome ∨ str "icon_directions:" <+: p ∨ str "messages:" <+: p

def KeyIn (s : Section) (piece : Bytes) : Prop :=
  let p := trim (cstr piece)
  p.head? ≠ some 35 ∧ 58 ∈ p ∧ lineKey p ∈ sectionKeys s

def Names (piece : Bytes) : Prop := Header piece ∨ ∃ s, KeyIn s piece

theorem prefix_start {name p : Bytes} (hne : name ≠ []) (hname : name.head? ≠ some 35)
    (h : name <+: p) :
    ¬ (p = [] ∨ p.head? = some 35) := by
  obtain ⟨rest, rfl⟩ := h
  obtain ⟨c, name, rfl⟩ := List.exists_cons_of_ne_nil hne
  intro hstart
  obtain hnil | hhash := hstart
  · cases hnil
  · exact hname hhash

theorem topLevel_start {p : Bytes} {s : Section} (h : topLevel p = some s) :
    ¬ (p = [] ∨ p.head? = some 35) := by
  by_contra hstart
  have hnot : ∀ name : Bytes, name ≠ [] → name.head? ≠ some 35 → ¬ name <+: p :=
    fun name hne hname hpre =>
    prefix_start hne hname hpre hstart
  rw [topLevel, if_neg (hnot _ (by decide) (by decide)), if_neg (hnot _ (by decide) (by decide)),
    if_neg (hnot _ (by decide) (by decide)), if_neg (hnot _ (by decide) (by decide)),
    if_neg (hnot _ (by decide) (by decide)), if_neg (hnot _ (by decide) (by decide)),
    if_neg (hnot _ (by decide) (by decide)), if_neg (hnot _ (by decide) (by decide))] at h
  cases h

theorem topLevel_ne_none {p : Bytes} {s : Section} (h : topLevel p = some s) : s ≠ .none := by
  rintro rfl
  revert h
  unfold topLevel
  split_ifs <;> nofun

theorem nested_opens {p : Bytes} {s opened : Section} (h : nested s p = some opened) :
    s = .ui ∧ (opened = .uiIcon ∨ opened = .uiMessages) := by
  unfold nested at h
  split_ifs at h with hicon hmessages
  · exact ⟨hicon.1, .inl (Option.some.inj h).symm⟩
  · exact ⟨hmessages.1, .inr (Option.some.inj h).symm⟩

theorem processLine_top {piece : Bytes} {s : Section} (h : topLevel (trim (cstr piece)) = some s)
    (st : Loader) :
    processLine st piece = { st with current := s } := by
  rw [processLine]
  simp only [if_neg (topLevel_start h), h]

theorem processLine_nested {piece : Bytes} (htop : topLevel (trim (cstr piece)) = none)
    (h : Header piece) {st : Loader} (hui : st.current = .ui) :
    (processLine st piece).current = .uiIcon ∨ (processLine st piece).current = .uiMessages := by
  obtain ⟨current, c⟩ := st
  obtain rfl : current = .ui := hui
  rw [Header, htop] at h
  rw [processLine]
  generalize trim (cstr piece) = p at htop h
  by_cases hicon : str "icon_directions:" <+: p
  · have hnested : nested .ui p = some .uiIcon := if_pos ⟨rfl, hicon⟩
    simp only [if_neg (prefix_start (by decide) (by decide) hicon), htop, hnested, true_or]
  · have hmessages : str "messages:" <+: p := (h.resolve_left Bool.false_ne_true).resolve_left hicon
    have hnested : nested .ui p = some .uiMessages := by
      rw [nested, if_neg (fun hboth => hicon hboth.2), if_pos ⟨rfl, hmessages⟩]
    simp only [if_neg (prefix_start (by decide) (by decide) hmessages), htop, hnested, or_true]

theorem processLine_cases (st : Loader) (piece : Bytes) :
    (processLine st piece).current = st.current ∨ topLevel
    (trim (cstr piece)) = some (processLine st piece).current ∨
      nested st.current (trim (cstr piece)) = some (processLine st piece).current := by
  rw [processLine]
  simp only []
  split
  · exact .inl rfl
  · split
    · rename_i h
      exact .inr (.inl h)
    · split
      · rename_i h
        exact .inr (.inr h)
      · split <;> exact .inl rfl

theorem processLine_cfg (st : Loader) (piece : Bytes) :
    (processLine st piece).cfg = st.cfg ∨
      58 ∈ trim (cstr piece) ∧ (processLine st piece).cfg =
        dispatch st.cfg st.current (lineKey (trim (cstr piece)))
            (lineValue (trim (cstr piece))) := by
  rw [processLine]
  simp only []
  split
  · exact .inl rfl
  · split
    · exact .inl rfl
    · split
      · exact .inl rfl
      · split
        · rename_i hcolon
          exact .inr ⟨hcolon, rfl⟩
        · exact .inl rfl

section
variable {piece : Bytes} (hheader : ¬ Header piece)
include hheader

theorem processLine_plain (st : Loader) :
    processLine st piece =
      if (trim (cstr piece)).head? ≠ some 35 ∧ 58 ∈ trim (cstr piece) then
        { st with
          cfg := dispatch st.cfg st.current (lineKey (trim (cstr piece)))
            (lineValue (trim (cstr piece))) }
      else st := by
  rw [Header, not_or, not_or, Option.not_isSome_iff_eq_none] at hheader
  obtain ⟨htop, hicon, hmessages⟩ := hheader
  rw [processLine]
  generalize trim (cstr piece) = p at htop hicon hmessages
  by_cases hhash : p.head? = some 35
  · simp only [hhash, or_true, if_true, ne_eq, not_true_eq_false, false_and, if_false]
  · by_cases hcolon : 58 ∈ p
    · have hne : p ≠ [] := List.ne_nil_of_mem hcolon
      have hnested : nested st.current p = none := by
        rw [nested, if_neg (fun hboth => hicon hboth.2), if_neg (fun hboth => hmessages hboth.2)]
      simp only [hne, hhash, or_self, if_false, htop, hnested, hcolon, if_true, ne_eq,
        not_false_eq_true, and_self, lineKey, lineValue]
    · have hnested : nested st.current p = none := by
        rw [nested, if_neg (fun hboth => hicon hboth.2), if_neg (fun hboth => hmessages hboth.2)]
      simp only [htop, hnested, hcolon, if_false, and_false, ite_self]

theorem processLine_current (st : Loader) : (processLine st piece).current = st.current := by
  rw [processLine_plain hheader]
  split <;> rfl

theorem processLine_key {st : Loader} (hkey : KeyIn st.current piece) :
    processLine st piece =
      { st with
        cfg := dispatch st.cfg st.current (lineKey (trim (cstr piece)))
          (lineValue (trim (cstr piece))) } := by
  rw [processLine_plain hheader, if_pos ⟨hkey.1, hkey.2.1⟩]

theorem processLine_other {st : Loader} (hkey : ¬ KeyIn st.current piece) :
    processLine st piece = st := by
  rw [processLine_plain hheader]
  split
  · rename_i hcolon
    have hunknown : lineKey (trim (cstr piece)) ∉ sectionKeys st.current :=
      fun hmem => hkey ⟨hcolon.1, hcolon.2, hmem⟩
    rw [dispatch_unknown hunknown]
  · rfl

end

theorem foldl_current {ps : List Bytes} (hheader : ∀ piece ∈ ps, ¬ Header piece) (st : Loader) :
    (ps.foldl processLine st).current = st.current := by
  induction ps generalizing st with
  | nil => rfl
  | cons piece ps ih =>
    rw [List.foldl_cons, ih fun q hq => hheader q (List.mem_cons_of_mem _ hq)]
    exact processLine_current (hheader piece List.mem_cons_self) st

theorem runLine_unnamed {line : Bytes} (h : ∀ piece ∈ pieces line, ¬ Names piece) (st : Loader) :
    runLine st line = st := by
  rw [runLine]
  generalize pieces line = ps at h
  induction ps with
  | nil => rfl
  | cons piece ps ih =>
    have hpiece := not_or.mp (h piece List.mem_cons_self)
    rw [List.foldl_cons, processLine_other hpiece.1 fun hkey => hpiece.2 ⟨_, hkey⟩]
    exact ih fun q hq => h q (List.mem_cons_of_mem _ hq)

end Csc412.Inklings
