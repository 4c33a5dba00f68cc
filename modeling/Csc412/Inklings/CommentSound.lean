import Csc412.Inklings.PieceSound

/-!
# Comments and blank lines

A comment changes nothing, wherever it stands, exactly when none of the pieces it is read in
is the header of a section or a key: `comment_inert_iff`. A comment that fits the buffer is a
single piece, and a blank line has only blank ones.
-/

namespace Csc412.Inklings
open Lib.CString

/-! ## Sections as a file sees them -/

/-- The lines that open a section of an empty configuration. -/
def opening : Section → List Bytes
  | .none => []
  | .logs => [str "logs:"]
  | .simulation => [str "simulation:"]
  | .ink => [str "ink:"]
  | .timing => [str "timing:"]
  | .eventLoop => [str "event_loop:"]
  | .producers => [str "producers:"]
  | .io => [str "io:"]
  | .ui => [str "ui:"]
  | .uiIcon => [str "ui:", str "icon_directions:"]
  | .uiMessages => [str "ui:", str "messages:"]

/-- Lines that are read in one section and in no other. -/
def probe : Section → List Bytes
  | .none => []
  | .logs => [str "dir:1"]
  | .simulation => [str "min_rows:1"]
  | .ink => [str "max_level:1"]
  | .timing => [str "producer_sleep_us:1"]
  | .eventLoop => [str "max_recursive_depth:1"]
  | .producers => [str "speedup_factor_num:1"]
  | .io => [str "pipe_path:1"]
  | .ui => [str "icon_directions:", str "north:1"]
  | .uiIcon => [str "north:1"]
  | .uiMessages => [str "quit_esc_message:1"]

theorem opening_run (s : Section) : (opening s).foldl runLine ⟨.none, .zero⟩ = ⟨s, .zero⟩ := by
  have hshort : ∀ line ∈ opening s, line.length ≤ 511 := by cases s <;> decide
  rw [foldl_short hshort]
  cases s <;> rfl

theorem probe_here {s : Section} (h : s ≠ .none) :
    ((probe s).foldl processLine ⟨s, .zero⟩).cfg ≠ .zero := by
  cases s with
  | none => exact absurd rfl h
  | _ => decide

theorem probe_elsewhere {s₀ s : Section} (h₀ : s₀ = .none ∨ s₀ = .ui) (hs : s ≠ s₀) :
    ((probe s).foldl processLine ⟨s₀, .zero⟩).cfg = .zero := by
  obtain rfl | rfl := h₀ <;> cases s <;> first | exact absurd rfl hs | decide

theorem sectionKeys_distinguishes (s : Section) :
    ∀ key ∈ sectionKeys s, dispatch .zero s key (str "0") ≠ dispatch .zero s key (str "1") := by
  cases s <;> decide

theorem sectionKeys_ok (s : Section) :
    ∀ key ∈ sectionKeys s, keyOk key = true ∧ key.length ≤ 100 ∧ topLevelKey key = none ∧
    nestedKey s key = none := by
  cases s <;> decide

theorem setting_fits {s : Section} {key : Bytes} (hkey : key ∈ sectionKeys s) {value : Bytes}
    (hvalue : value = str "0" ∨ value = str "1") :
    newline ∉ key ++ 58 :: value ∧ (key ++ 58 :: value).length ≤ 511 := by
  obtain ⟨hok, hlen, -, -⟩ := sectionKeys_ok s key hkey
  have hfree : newline ∉ key := fun hmem => absurd (key_char hok hmem).1 (by decide)
  have hvalue' : newline ∉ 58 :: value ∧ (58 :: value).length = 2 := by
    obtain rfl | rfl := hvalue <;> decide
  refine ⟨fun hmem => (List.mem_append.mp hmem).elim hfree hvalue'.1, ?_⟩
  rw [List.length_append, hvalue'.2]
  omega

theorem processLine_setting {s : Section} {key : Bytes} (hkey : key ∈ sectionKeys s) {value : Bytes}
    (hvalue : value = str "0" ∨ value = str "1") :
    processLine ⟨s, .zero⟩ (key ++ 58 :: value) = ⟨s, dispatch .zero s key value⟩ := by
  obtain ⟨hok, -, htop, hnested⟩ := sectionKeys_ok s key hkey
  have hfine : Trimmed value ∧ 0 ∉ value := by
    obtain rfl | rfl := hvalue <;> refine ⟨⟨?_, ?_⟩, by decide⟩ <;> rintro c ⟨⟩ <;> rfl
  have hi : Item.Ok ⟨0, key, value⟩ := ⟨hok, hfine.1, hfine.2⟩
  have hline : ItemLine ⟨0, key, value⟩ (key ++ 58 :: value) :=
    ⟨[], [], [], nofun, nofun, nofun, by simp⟩
  have hstrip : stripQuotes value = value := by
    obtain rfl | rfl := hvalue <;> rfl
  rw [processLine_item hline hi, applyItem]
  simp only [htop, hnested, hstrip]

/-- The last of the keys that the pieces have in the section gets its value, whatever was
there before. -/
theorem foldl_key {s : Section} {ps : List Bytes} (hheader : ∀ piece ∈ ps, ¬ Header piece)
    (hkey : ∃ q ∈ ps, KeyIn s q) :
    ∃ key ∈ sectionKeys s, ∃ value, ∀ c, ∃ c',
    ps.foldl processLine ⟨s, c⟩ = ⟨s, dispatch c' s key value⟩ := by
  induction ps using List.reverseRecOn with
  | nil =>
    obtain ⟨q, hq, _⟩ := hkey
    cases hq
  | append_singleton init last ih =>
    have hinit : ∀ piece ∈ init, ¬ Header piece :=
      fun piece hpiece => hheader piece (List.mem_append_left _ hpiece)
    have hlast : ¬ Header last := hheader last (by simp)
    by_cases hhere : KeyIn s last
    · refine ⟨_, hhere.2.2, lineValue (trim (cstr last)),
        fun c => ⟨(init.foldl processLine ⟨s, c⟩).cfg, ?_⟩⟩
      have hcurrent : (init.foldl processLine ⟨s, c⟩).current = s := foldl_current hinit ⟨s, c⟩
      rw [List.foldl_append, List.foldl_cons, List.foldl_nil,
        processLine_key hlast (by rwa [hcurrent]), hcurrent]
    · have hrest : ∃ q ∈ init, KeyIn s q := by
        obtain ⟨q, hq, hqkey⟩ := hkey
        obtain hq | hq := List.mem_append.mp hq
        · exact ⟨q, hq, hqkey⟩
        · exact absurd (List.mem_singleton.mp hq ▸ hqkey) hhere
      obtain ⟨key, hmem, value, hrun⟩ := ih hinit hrest
      refine ⟨key, hmem, value, fun c => ?_⟩
      obtain ⟨c', hc⟩ := hrun c
      refine ⟨c', ?_⟩
      rw [List.foldl_append, hc, List.foldl_cons, List.foldl_nil, processLine_other hlast hhere]

/-! ## Lines that stand anywhere -/

/-- The line may stand at any place of any file, or be left out. -/
def Unaffected (line : Bytes) : Prop :=
  ∀ before after : List Bytes, (∀ l ∈ before ++ after, newline ∉ l) →
    loadConfig (some (join (before ++ line :: after))) = loadConfig (some (join (before ++ after)))

section
variable {line : Bytes} (hline : newline ∉ line)
include hline

theorem loadConfig_around {before after : List Bytes} (hfile : ∀ l ∈ before ++ after, newline ∉ l) :
    loadConfig (some (join (before ++ line :: after))) =
      some (after.foldl runLine (runLine (before.foldl runLine ⟨.none, .zero⟩) line)).cfg := by
  rw [loadConfig_join, List.foldl_append, List.foldl_cons]
  intro l hl
  obtain hl | hl := List.mem_append.mp hl
  · exact hfile l (List.mem_append_left _ hl)
  · obtain rfl | hl := List.mem_cons.mp hl
    · exact hline
    · exact hfile l (List.mem_append_right _ hl)

theorem Unaffected.after_run (h : Unaffected line) (before after : List Bytes)
    (hfile : ∀ l ∈ before ++ after, newline ∉ l) :
    (after.foldl runLine (runLine (before.foldl runLine ⟨.none, .zero⟩) line)).cfg =
      (after.foldl runLine (before.foldl runLine ⟨.none, .zero⟩)).cfg := by
  have hsame := h before after hfile
  rw [loadConfig_around hline hfile, loadConfig_join hfile, List.foldl_append] at hsame
  exact Option.some.inj hsame

theorem unaffected_of_unnamed (h : ∀ piece ∈ pieces line, ¬ Names piece) : Unaffected line := by
  intro before after hfile
  rw [loadConfig_around hline hfile, loadConfig_join hfile, runLine_unnamed h, List.foldl_append]

/-- A line that leaves the section `s₀` for another one is noticed, by a line that is read there. -/
theorem Unaffected.stays (h : Unaffected line) {s₀ : Section} (h₀ : s₀ = .none ∨ s₀ = .ui)
    (hne : (runLine ⟨s₀, .zero⟩ line).current ≠ .none) :
    (runLine ⟨s₀, .zero⟩ line).current = s₀ := by
  generalize hrun : runLine ⟨s₀, .zero⟩ line = st at hne
  obtain ⟨s, c⟩ := st
  have hopening : ∀ l ∈ opening s₀, newline ∉ l := by
    obtain rfl | rfl := h₀ <;> decide
  have hprobe : ∀ l ∈ probe s, newline ∉ l ∧ l.length ≤ 511 := by cases s <;> decide
  have hc : c = .zero := by
    have hsame := h.after_run hline (opening s₀) [] (by simpa using hopening)
    rwa [opening_run, hrun] at hsame
  by_contra hmoved
  have hsame := h.after_run hline (opening s₀) (probe s) fun l hl => (List.mem_append.mp hl).elim
    (hopening l) fun hl => (hprobe l hl).1
  rw [opening_run, hrun, hc, foldl_short (fun l hl => (hprobe l hl).2),
    foldl_short (fun l hl => (hprobe l hl).2), probe_elsewhere h₀ hmoved] at hsame
  exact probe_here hne hsame

end

/-! ## Runs of pieces -/

theorem foldl_keeps {P : Section → Prop} {ps : List Bytes}
    (hkeep : ∀ piece ∈ ps, ∀ st, P st.current → P (processLine st piece).current) {st : Loader}
    (h : P st.current) : P (ps.foldl processLine st).current := by
  induction ps generalizing st with
  | nil => exact h
  | cons piece ps ih =>
    exact ih (fun q hq => hkeep q (List.mem_cons_of_mem _ hq)) (hkeep piece List.mem_cons_self st h)

/-- One piece takes the section from `P` to `Q`, and the others keep both. -/
theorem foldl_reaches {P Q : Section → Prop} {ps : List Bytes}
    (hP : ∀ piece ∈ ps, ∀ st, P st.current → P (processLine st piece).current)
    (hQ : ∀ piece ∈ ps, ∀ st, Q st.current → Q (processLine st piece).current) {q : Bytes}
    (hq : q ∈ ps) (hreach : ∀ st, P st.current → Q (processLine st q).current) {st : Loader}
    (h : P st.current) : Q (ps.foldl processLine st).current := by
  obtain ⟨init, rest, rfl⟩ := List.append_of_mem hq
  rw [List.foldl_append, List.foldl_cons]
  apply foldl_keeps fun piece hpiece => hQ piece (by simp [hpiece])
  apply hreach
  exact foldl_keeps (fun piece hpiece => hP piece (by simp [hpiece])) h

section
variable {line : Bytes}

theorem top_moves {q : Bytes} (hq : q ∈ pieces line) (htop : (topLevel (trim (cstr q))).isSome)
    (c : AppConfig) :
    (runLine ⟨.none, c⟩ line).current ≠ .none := by
  obtain ⟨s, hs⟩ := Option.isSome_iff_exists.mp htop
  have hkeep : ∀ piece ∈ pieces line, ∀ st : Loader, st.current ≠ .none →
      (processLine st piece).current ≠ .none := by
    intro piece _ st hst
    obtain hsame | hopened | hopened := processLine_cases st piece
    · rwa [hsame]
    · exact topLevel_ne_none hopened
    · obtain hicon | hmessages := (nested_opens hopened).2
      · rw [hicon]
        nofun
      · rw [hmessages]
        nofun
  apply @foldl_reaches (fun _ => True) (· ≠ .none) (pieces line) (fun _ _ _ _ => trivial) hkeep q hq
  · intro st _
    rw [processLine_top hs]
    exact topLevel_ne_none hs
  · trivial

theorem nested_moves (htop : ∀ piece ∈ pieces line, topLevel (trim (cstr piece)) = none) {q : Bytes}
    (hq : q ∈ pieces line) (hopen : Header q) (c : AppConfig) :
    (runLine ⟨.ui, c⟩ line).current = .uiIcon ∨ (runLine ⟨.ui, c⟩ line).current = .uiMessages := by
  have hstep : ∀ piece ∈ pieces line, ∀ st : Loader, (processLine st piece).current = st.current ∨
      (processLine st piece).current = .uiIcon ∨ (processLine st piece).current = .uiMessages := by
    intro piece hpiece st
    obtain hsame | hopened | hopened := processLine_cases st piece
    · exact .inl hsame
    · rw [htop piece hpiece] at hopened
      cases hopened
    · exact .inr (nested_opens hopened).2
  have hinside : ∀ piece ∈ pieces line, ∀ st : Loader, st.current = .uiIcon ∨
    st.current = .uiMessages →
      (processLine st piece).current = .uiIcon ∨ (processLine st piece).current = .uiMessages := by
    intro piece hpiece st hst
    obtain hsame | hopened := hstep piece hpiece st
    · rwa [hsame]
    · exact hopened
  have hui : ∀ piece ∈ pieces line, ∀ st : Loader, st.current = .ui ∨ st.current = .uiIcon ∨
    st.current = .uiMessages →
      (processLine st piece).current = .ui ∨ (processLine st piece).current = .uiIcon ∨
      (processLine st piece).current = .uiMessages := by
    intro piece hpiece st hst
    obtain hsame | hopened := hstep piece hpiece st
    · rwa [hsame]
    · exact .inr hopened
  apply @foldl_reaches (fun s => s = .ui ∨ s = .uiIcon ∨ s = .uiMessages) (fun s => s = .uiIcon ∨
    s = .uiMessages) (pieces line) hui
    hinside q hq
  · intro st hst
    obtain hst | hst := hst
    · exact processLine_nested (htop q hq) hopen hst
    · exact hinside q hq st hst
  · exact .inl rfl

variable (hline : newline ∉ line)
include hline

theorem Unaffected.no_key (h : Unaffected line) (hheader : ∀ piece ∈ pieces line, ¬ Header piece)
    (s : Section) :
    ∀ piece ∈ pieces line, ¬ KeyIn s piece := by
  intro piece hpiece hkey
  obtain ⟨key, hmem, value, hrun⟩ := foldl_key hheader ⟨piece, hpiece, hkey⟩
  have hset : ∀ w, w = str "0" ∨ w = str "1" →
      dispatch .zero s key w = dispatch .zero s key value := by
    intro w hw
    have hsetting := setting_fits hmem hw
    have hfile : ∀ l ∈ opening s ++ [key ++ 58 :: w] ++ [], newline ∉ l := by
      have hopening : ∀ l ∈ opening s, newline ∉ l := by cases s <;> decide
      intro l hl
      rw [List.append_nil, List.mem_append, List.mem_singleton] at hl
      obtain hl | rfl := hl
      · exact hopening l hl
      · exact hsetting.1
    have hsame := h.after_run hline _ _ hfile
    rw [List.foldl_append, opening_run, List.foldl_cons, List.foldl_nil, runLine_short _ hsetting.2,
      processLine_setting hmem hw] at hsame
    obtain ⟨c', hc⟩ := hrun (dispatch .zero s key w)
    have hend : dispatch c' s key value = dispatch .zero s key w :=
      (congrArg Loader.cfg hc).symm.trans hsame
    calc dispatch .zero s key w = dispatch c' s key value := hend.symm
      _ = dispatch (dispatch c' s key value) s key value :=
        (dispatch_overwrites key s c' value value).symm
      _ = dispatch (dispatch .zero s key w) s key value := by rw [hend]
      _ = dispatch .zero s key value := dispatch_overwrites key s .zero w value
  exact sectionKeys_distinguishes s key hmem ((hset _ (.inl rfl)).trans (hset _ (.inr rfl)).symm)

theorem unaffected_iff : Unaffected line ↔ ∀ piece ∈ pieces line, ¬ Names piece := by
  refine ⟨fun h => ?_, unaffected_of_unnamed hline⟩
  have htop : ∀ piece ∈ pieces line, topLevel (trim (cstr piece)) = none := by
    intro piece hpiece
    by_contra hsome
    have hmoves := top_moves hpiece (Option.isSome_iff_ne_none.mpr hsome) .zero
    exact hmoves (h.stays hline (.inl rfl) hmoves)
  have hheader : ∀ piece ∈ pieces line, ¬ Header piece := by
    intro piece hpiece hopen
    have hmoves := nested_moves htop hpiece hopen .zero
    have hne : (runLine ⟨.ui, .zero⟩ line).current ≠ .none ∧
        (runLine ⟨.ui, .zero⟩ line).current ≠ .ui := by
      obtain hicon | hmessages := hmoves
      · rw [hicon]
        exact ⟨nofun, nofun⟩
      · rw [hmessages]
        exact ⟨nofun, nofun⟩
    exact hne.2 (h.stays hline (.inr rfl) hne.1)
  intro piece hpiece hnames
  obtain hopen | ⟨s, hkey⟩ := hnames
  · exact hheader piece hpiece hopen
  · exact h.no_key hline hheader s piece hpiece hkey

end

/-! ## Comments -/

theorem Names.start {piece : Bytes} (h : Names piece) :
    ¬ (trim (cstr piece) = [] ∨ (trim (cstr piece)).head? = some 35) := by
  obtain (htop | hicon | hmessages) | ⟨s, hhash, hcolon, _⟩ := h
  · obtain ⟨s, hs⟩ := Option.isSome_iff_exists.mp htop
    exact topLevel_start hs
  · exact prefix_start (by decide) (by decide) hicon
  · exact prefix_start (by decide) (by decide) hmessages
  · exact not_or.mpr ⟨List.ne_nil_of_mem hcolon, hhash⟩

theorem Inert.take {line : Bytes} (h : Inert line) (n : Nat) : Inert (line.take n) := by
  obtain ⟨indent, rest, hindent, hrest, rfl⟩ := h
  refine ⟨indent.take n, rest.take (n - indent.length),
    fun c hc => hindent c (List.mem_of_mem_take hc), ?_, List.take_append⟩
  rw [List.take_eq_nil_iff, List.head?_take]
  by_cases hzero : n - indent.length = 0
  · exact .inl (.inl hzero)
  · rw [if_neg hzero]
    exact hrest.imp_left .inr

theorem Inert.pieces_unnamed {line : Bytes} (h : Inert line)
    (htail : ∀ piece ∈ (pieces line).tail, ¬ Names piece) :
    ∀ piece ∈ pieces line, ¬ Names piece := by
  by_cases hne : line = []
  · rw [hne, pieces_nil]
    nofun
  · rw [pieces_cons hne] at htail ⊢
    intro piece hpiece
    obtain rfl | hpiece := List.mem_cons.mp hpiece
    · exact fun hnames => hnames.start (h.take 511).trim_cstr
    · exact htail piece hpiece

theorem Inert.short {line : Bytes} (hline : newline ∉ line) (h : Inert line)
    (hlen : line.length ≤ 511) : Unaffected line := by
  apply unaffected_of_unnamed hline
  apply h.pieces_unnamed
  by_cases hne : line = []
  · rw [hne, pieces_nil]
    nofun
  · rw [pieces_short hne hlen]
    nofun

theorem blank_pieces {line : Bytes} (h : Blank line) : ∀ piece ∈ pieces line, Inert piece := by
  induction hn : line.length using Nat.strong_induction_on generalizing line with
  | _ n ih =>
    by_cases hne : line = []
    · rw [hne, pieces_nil]
      nofun
    · have hpos := List.length_pos_iff.mpr hne
      rw [pieces_cons hne]
      intro piece hpiece
      obtain rfl | hpiece := List.mem_cons.mp hpiece
      · exact ⟨line.take 511, [], fun c hc => h c (List.mem_of_mem_take hc), .inl rfl,
          (List.append_nil _).symm⟩
      · exact ih _ (by rw [List.length_drop]; omega) (fun c hc => h c (List.mem_of_mem_drop hc)) rfl
          piece hpiece

theorem Blank.unnamed {line : Bytes} (h : Blank line) : ∀ piece ∈ pieces line, ¬ Names piece :=
  fun piece hpiece hnames =>
  hnames.start (blank_pieces h piece hpiece).trim_cstr

theorem Blank.unaffected {line : Bytes} (h : Blank line) : Unaffected line :=
  unaffected_of_unnamed (fun hmem => (h _ hmem).2 rfl) h.unnamed

/-- A comment changes nothing wherever it stands exactly when no piece after its first is the header
of a section or a key. -/
theorem comment_inert_iff {line : Bytes} (hline : newline ∉ line) (h : Inert line) :
    Unaffected line ↔ ∀ piece ∈ (pieces line).tail, ¬ Names piece := by
  rw [unaffected_iff hline]
  exact ⟨fun hall piece hpiece => hall piece (List.mem_of_mem_tail hpiece), h.pieces_unnamed⟩

theorem comment_inert_iff_short :
    Unaffected (str "# logs:") ↔ ∀ piece ∈ (pieces (str "# logs:")).tail, ¬ Names piece :=
  comment_inert_iff (by decide) ⟨[], str "# logs:", nofun, .inr rfl, rfl⟩

/-- A comment of 516 bytes, whose last five are read as a header. -/
def longComment : Bytes := (35 :: List.replicate 510 32) ++ str "logs:"

theorem comment_not_inert :
    Inert longComment ∧ newline ∉ longComment ∧
      loadConfig (some (join [longComment, str "dir:1"])) ≠
          loadConfig (some (join [str "dir:1"])) := by
  have hline : newline ∉ longComment := by
    rw [longComment, List.mem_append, List.mem_cons, List.mem_replicate]
    decide
  have hinert : Inert longComment := ⟨[], longComment, nofun, .inr rfl, rfl⟩
  have hrun : runLine ⟨.none, .zero⟩ longComment = ⟨.logs, .zero⟩ := by
    have hfirst : Inert (longComment.take 511) := hinert.take 511
    have hrest : longComment.drop 511 = str "logs:" := by
      apply List.drop_left'
      rw [List.length_cons, List.length_replicate]
    have hne : longComment ≠ [] := List.cons_ne_nil _ _
    rw [runLine_cons _ hne, processLine_inert hfirst, hrest, runLine_short _ (by decide)]
    rfl
  refine ⟨hinert, hline, ?_⟩
  rw [loadConfig_join, loadConfig_join]
  · simp only [List.foldl_cons, List.foldl_nil, hrun]
    rw [runLine_short _ (by decide), runLine_short _ (by decide)]
    decide
  · decide
  · intro l hl
    obtain rfl | hl := List.mem_cons.mp hl
    · exact hline
    · rw [List.mem_singleton.mp hl]
      decide

end Csc412.Inklings
