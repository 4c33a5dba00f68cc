import Csc412.Inklings.LineSound

/-!
# What is loaded from a file in the layout

The items of a section set the fields of the section one after another, but the header
`messages:` opens no section after the directions, so the messages are never set.
-/

namespace Csc412.Inklings
open Lib.CString

/-! ## Values -/

theorem stripQuotes_quoted (s : Bytes) : stripQuotes (34 :: s ++ [34]) = s := by
  rw [stripQuotes, if_pos ⟨by simp, rfl, List.getLast?_concat⟩]
  simp

theorem stripQuotes_decimal (n : Int) : stripQuotes (decimal n) = decimal n := by
  obtain ⟨d, ds, hd, hrange, -⟩ := decimalNat_head n.natAbs
  rw [stripQuotes, if_neg]
  intro ⟨_, hhead, _⟩
  rw [decimal, hd] at hhead
  split at hhead
  · cases hhead
  · obtain rfl : d = 34 := Option.some.inj hhead
    exact absurd hrange (by decide)

@[simp] theorem text_key {size : Nat} (depth : Nat) (key : String) (b : Buffer size) :
    (text depth key b).key = str key := rfl

@[simp] theorem int_key (key : String) (n : Int32) : (int key n).key = str key := rfl

@[simp] theorem bool_key (key : String) (n : Int32) : (bool key n).key = str key := rfl

@[simp] theorem text_value {size : Nat} [NeZero size] (depth : Nat) (key : String)
    (b : Buffer size) :
    (snprintf (stripQuotes (text depth key b).value) : Buffer size) = b := by
  rw [text, stripQuotes_quoted, snprintf_bytes]

@[simp] theorem int_value (key : String) (n : Int32) :
    atoi (stripQuotes (int key n).value) = n := by
  rw [int, stripQuotes_decimal, atoi_decimal]

theorem bool_value (key : String) {n : Int32} (hn : n = 0 ∨ n = 1) :
    parseBoolOrInt (stripQuotes (bool key n).value) = n := by
  obtain rfl | rfl := hn
  · rfl
  · rfl

theorem header_ok (depth : Nat) {key : String} (hkey : keyOk (str key) = true) :
    (header depth key).Ok :=
  ⟨hkey, ⟨nofun, nofun⟩, List.not_mem_nil⟩

theorem quoted_ok (depth : Nat) {key : String} (hkey : keyOk (str key) = true) {raw : Bytes}
    (hraw : 0 ∉ raw) : (quoted depth key raw).Ok := by
  refine ⟨hkey, ⟨?_, ?_⟩, ?_⟩
  · rintro c ⟨⟩
    rfl
  · intro c hc
    rw [quoted, List.getLast?_concat] at hc
    obtain rfl : 34 = c := Option.some.inj hc
    rfl
  · simp [quoted, hraw]

theorem text_ok {size : Nat} (depth : Nat) {key : String} (hkey : keyOk (str key) = true)
    (b : Buffer size) : (text depth key b).Ok :=
  quoted_ok depth hkey b.ended

theorem decimal_range {n : Int} {b : UInt8} (hb : b ∈ decimal n) : isspace b = false ∧ b ≠ 0 := by
  rw [decimal] at hb
  have hdigit : b ∈ decimalNat n.natAbs → isspace b = false ∧ b ≠ 0 := by
    intro hb
    have hrange := (decimalNat_range hb).1
    refine ⟨isspace_digit hrange, ?_⟩
    rintro rfl
    exact absurd hrange (by decide)
  split at hb
  · obtain rfl | hb := List.mem_cons.mp hb
    · decide
    · exact hdigit hb
  · exact hdigit hb

theorem int_ok {key : String} (hkey : keyOk (str key) = true) (n : Int32) : (int key n).Ok :=
  ⟨hkey, ⟨fun _ hc => (decimal_range (List.mem_of_mem_head? hc)).1,
    fun _ hc => (decimal_range (List.mem_of_mem_getLast? hc)).1⟩,
    fun hzero => (decimal_range hzero).2 rfl⟩

theorem bool_ok {key : String} (hkey : keyOk (str key) = true) (n : Int32) : (bool key n).Ok := by
  have hvalue : ∀ v, v = str "false" ∨ v = str "true" → Trimmed v ∧ 0 ∉ v := by
    rintro v (rfl | rfl)
    · refine ⟨⟨?_, ?_⟩, by decide⟩ <;> rintro c ⟨⟩ <;> rfl
    · refine ⟨⟨?_, ?_⟩, by decide⟩ <;> rintro c ⟨⟩ <;> rfl
  obtain ⟨htrimmed, hzero⟩ := hvalue (bool key n).value (by rw [bool]; split <;> simp)
  exact ⟨hkey, htrimmed, hzero⟩

/-! ## Sections -/

/-- A part of the configuration and the section whose keys set its fields. -/
structure Part (α : Type) where
  sect : Section
  get : AppConfig → α
  set : AppConfig → α → AppConfig
  keys : α → Bytes → Bytes → α
  dispatch : ∀ c key value, dispatch c sect key value = set c (keys (get c) key value)
  get_set : ∀ c a, get (set c a) = a
  set_set : ∀ c a b, set (set c a) b = set c b
  set_get : ∀ c, set c (get c) = c

theorem header_top {key : String} {s : Section} (hkey : topLevelKey (str key) = some s)
    (st : Loader) (depth : Nat) :
    applyItem st (header depth key) = ⟨s, st.cfg⟩ := by
  rw [applyItem, header]
  simp only [hkey]

def noSection (s : Section) (is : List Item) : Bool :=
  is.all fun i => (topLevelKey i.key).isNone && (nestedKey s i.key).isNone

section
variable {α : Type} (part : Part α)

/-- What the items of a section make of its part. -/
def Part.fields (is : List Item) (a : α) : α :=
  is.foldl (fun a i => part.keys a i.key (stripQuotes i.value)) a

theorem Part.foldl_fields {is : List Item} (his : noSection part.sect is = true) (c : AppConfig) :
    is.foldl applyItem ⟨part.sect, c⟩ = ⟨part.sect, part.set c (part.fields is (part.get c))⟩ := by
  induction is generalizing c with
  | nil => rw [List.foldl_nil, Part.fields, List.foldl_nil, part.set_get]
  | cons i is ih =>
    rw [noSection, List.all_cons, Bool.and_eq_true, Bool.and_eq_true, Option.isNone_iff_eq_none,
      Option.isNone_iff_eq_none] at his
    obtain ⟨⟨htop, hnested⟩, his⟩ := his
    rw [List.foldl_cons, applyItem]
    simp only [htop, hnested]
    rw [ih his, part.dispatch, part.get_set, part.set_set]
    rfl

theorem Part.foldl_section {key : String} {depth : Nat} {is : List Item}
    (hkey : topLevelKey (str key) = some part.sect) (his : noSection part.sect is = true)
    (st : Loader) :
    (header depth key :: is).foldl applyItem st =
        ⟨part.sect, part.set st.cfg (part.fields is (part.get st.cfg))⟩ := by
  rw [List.foldl_cons, header_top hkey]
  exact part.foldl_fields his st.cfg

end

def logsPart : Part LogsConfig where
  sect := .logs
  get := AppConfig.logs
  set := fun cfg c => { cfg with logs := c }
  keys := logsKey
  dispatch _ _ _ := rfl
  get_set _ _ := rfl
  set_set _ _ _ := rfl
  set_get _ := rfl

def simulationPart : Part SimulationConfig where
  sect := .simulation
  get := AppConfig.simulation
  set := fun cfg c => { cfg with simulation := c }
  keys := simulationKey
  dispatch _ _ _ := rfl
  get_set _ _ := rfl
  set_set _ _ _ := rfl
  set_get _ := rfl

def inkPart : Part InkConfig where
  sect := .ink
  get := AppConfig.ink
  set := fun cfg c => { cfg with ink := c }
  keys := inkKey
  dispatch _ _ _ := rfl
  get_set _ _ := rfl
  set_set _ _ _ := rfl
  set_get _ := rfl

def timingPart : Part TimingConfig where
  sect := .timing
  get := AppConfig.timing
  set := fun cfg c => { cfg with timing := c }
  keys := timingKey
  dispatch _ _ _ := rfl
  get_set _ _ := rfl
  set_set _ _ _ := rfl
  set_get _ := rfl

def eventLoopPart : Part EventLoopConfig where
  sect := .eventLoop
  get := AppConfig.event_loop
  set := fun cfg c => { cfg with event_loop := c }
  keys := eventLoopKey
  dispatch _ _ _ := rfl
  get_set _ _ := rfl
  set_set _ _ _ := rfl
  set_get _ := rfl

def producersPart : Part ProducersConfig where
  sect := .producers
  get := AppConfig.producers
  set := fun cfg c => { cfg with producers := c }
  keys := producersKey
  dispatch _ _ _ := rfl
  get_set _ _ := rfl
  set_set _ _ _ := rfl
  set_get _ := rfl

def ioPart : Part IOConfig where
  sect := .io
  get := AppConfig.io
  set := fun cfg c => { cfg with io := c }
  keys := ioKey
  dispatch _ _ _ := rfl
  get_set _ _ := rfl
  set_set _ _ _ := rfl
  set_get _ := rfl

def iconPart : Part IconDirectionsConfig where
  sect := .uiIcon
  get := fun cfg => cfg.ui.icon_directions
  set := fun cfg c => { cfg with ui := { cfg.ui with icon_directions := c } }
  keys := iconKey
  dispatch _ _ _ := rfl
  get_set _ _ := rfl
  set_set _ _ _ := rfl
  set_get _ := rfl

theorem foldl_logs (st : Loader) (c : LogsConfig) :
    (logsItems c).foldl applyItem st = ⟨.logs, { st.cfg with logs := c }⟩ := by
  rw [logsItems, logsPart.foldl_section rfl rfl]
  simp +decide [Part.fields, logsPart, logsKey]

theorem foldl_simulation (st : Loader) (c : SimulationConfig)
    (hbool : c.draw_colored_traveler_heads = 0 ∨ c.draw_colored_traveler_heads = 1) :
    (simulationItems c).foldl applyItem st = ⟨.simulation, { st.cfg with simulation := c }⟩ := by
  rw [simulationItems, simulationPart.foldl_section rfl rfl]
  simp +decide [Part.fields, simulationPart, simulationKey, bool_value _ hbool]

theorem foldl_ink (st : Loader) (c : InkConfig) :
    (inkItems c).foldl applyItem st = ⟨.ink, { st.cfg with ink := c }⟩ := by
  rw [inkItems, inkPart.foldl_section rfl rfl]
  simp +decide [Part.fields, inkPart, inkKey]

theorem foldl_timing (st : Loader) (c : TimingConfig) :
    (timingItems c).foldl applyItem st = ⟨.timing, { st.cfg with timing := c }⟩ := by
  rw [timingItems, timingPart.foldl_section rfl rfl]
  simp +decide [Part.fields, timingPart, timingKey]

theorem foldl_eventLoop (st : Loader) (c : EventLoopConfig) :
    (eventLoopItems c).foldl applyItem st = ⟨.eventLoop, { st.cfg with event_loop := c }⟩ := by
  rw [eventLoopItems, eventLoopPart.foldl_section rfl rfl]
  simp +decide [Part.fields, eventLoopPart, eventLoopKey]

theorem foldl_producers (st : Loader) (c : ProducersConfig) :
    (producersItems c).foldl applyItem st = ⟨.producers, { st.cfg with producers := c }⟩ := by
  rw [producersItems, producersPart.foldl_section rfl rfl]
  simp +decide [Part.fields, producersPart, producersKey]

theorem foldl_io (st : Loader) (c : IOConfig) :
    (ioItems c).foldl applyItem st = ⟨.io, { st.cfg with io := c }⟩ := by
  rw [ioItems, ioPart.foldl_section rfl rfl]
  simp +decide [Part.fields, ioPart, ioKey]

theorem header_icon (cfg : AppConfig) (depth : Nat) :
    applyItem ⟨.ui, cfg⟩ (header depth "icon_directions") = ⟨.uiIcon, cfg⟩ := rfl

theorem foldl_icon (cfg : AppConfig) (c : IconDirectionsConfig) :
    (iconItems c).foldl applyItem ⟨.ui, cfg⟩ =
        ⟨.uiIcon, { cfg with ui := { cfg.ui with icon_directions := c } }⟩ := by
  rw [iconItems, List.foldl_cons, header_icon]
  refine (iconPart.foldl_fields rfl cfg).trans ?_
  simp +decide [Part.fields, iconPart, iconKey]

/-- The header of the messages does not open their section after the directions. -/
theorem foldl_messages (cfg : AppConfig) (c : MessagesConfig) :
    (messagesItems c).foldl applyItem ⟨.uiIcon, cfg⟩ = ⟨.uiIcon, cfg⟩ := by
  rw [messagesItems]
  refine (iconPart.foldl_fields rfl cfg).trans ?_
  simp +decide [Part.fields, iconPart, iconKey, header]

theorem foldl_items (c : AppConfig)
    (hbool : c.simulation.draw_colored_traveler_heads = 0 ∨
      c.simulation.draw_colored_traveler_heads = 1) :
    (items c).foldl applyItem ⟨.none, .zero⟩ =
        ⟨.uiIcon, { c with ui := { c.ui with messages := .zero } }⟩ := by
  simp only [items, List.foldl_append, foldl_logs, foldl_simulation _ _ hbool, foldl_ink,
    foldl_timing, foldl_eventLoop, foldl_producers, foldl_io, List.foldl_cons,
    @header_top "ui" .ui rfl, foldl_icon, foldl_messages]
  rfl

theorem items_ok (c : AppConfig) : ∀ i ∈ items c, i.Ok := by
  simp only [items, logsItems, simulationItems, inkItems, timingItems, eventLoopItems,
    producersItems, ioItems, iconItems, messagesItems, List.forall_mem_append, List.forall_mem_cons,
    List.not_mem_nil, false_imp_iff, implies_true]
  simp +decide only [header_ok, text_ok, int_ok, bool_ok, and_self]

/-! ## Round trip -/

theorem load_written {c : AppConfig} {file : Bytes}
    (hbool : c.simulation.draw_colored_traveler_heads = 0 ∨
      c.simulation.draw_colored_traveler_heads = 1) (hfile : Written c file) :
    loadConfig (some file) = some { c with ui := { c.ui with messages := .zero } } := by
  obtain ⟨lines, hlaid, hlines, rfl⟩ := hfile
  show some (loadLoop ⟨.none, .zero⟩ (fileOf lines)).cfg = _
  rw [loadLoop_file hlines, foldl_laid hlaid (items_ok c), foldl_items c hbool]

theorem config_round_trip {c : AppConfig} {file : Bytes}
    (hbool : c.simulation.draw_colored_traveler_heads = 0 ∨
      c.simulation.draw_colored_traveler_heads = 1) (hfile : Written c file) :
    loadConfig (some file) = some c ↔ c.ui.messages = .zero := by
  rw [load_written hbool hfile]
  constructor
  · intro h
    rw [← Option.some.inj h]
  · intro h
    rw [← h]

/-! ## The shipped layout -/

theorem decimal_length (n : Int32) : (decimal n.toInt).length ≤ 11 := by
  have hlo := n.le_toInt
  have hhi := n.toInt_lt
  have hdigits := Nat.toDigits_length 10 n.toInt.natAbs 10 (by decide) (by omega)
  rw [decimal]
  split
  · rw [List.length_cons, decimalNat, List.length_map]
    omega
  · rw [decimalNat, List.length_map]
    omega

structure Item.Short (i : Item) : Prop where
  key : newline ∉ i.key
  value : newline ∉ i.value
  length : i.depth + i.key.length + i.value.length + 2 < 511

theorem header_short (depth : Nat) {key : String} (hkey : newline ∉ str key)
    (hlen : depth + (str key).length < 100) :
    (header depth key).Short := by
  refine ⟨hkey, List.not_mem_nil, ?_⟩
  show depth + (str key).length + 0 + 2 < 511
  omega

theorem quoted_short (depth : Nat) {key : String} {raw : Bytes} (hkey : newline ∉ str key)
    (hraw : newline ∉ raw) (hsize : raw.length < 400) (hlen : depth + (str key).length < 100) :
    (quoted depth key raw).Short := by
  refine ⟨hkey, ?_, ?_⟩
  · simpa [quoted, newline] using hraw
  · show depth + (str key).length + (34 :: raw ++ [34]).length + 2 < 511
    rw [List.length_append, List.length_cons, List.length_singleton]
    omega

theorem text_short {size : Nat} (depth : Nat) {key : String} {b : Buffer size}
    (hkey : newline ∉ str key) (hb : newline ∉ b.bytes) (hsize : size ≤ 256)
    (hlen : depth + (str key).length < 100) : (text depth key b).Short :=
  quoted_short depth hkey hb (Nat.lt_of_lt_of_le b.fits (Nat.le_trans hsize (by decide))) hlen

theorem int_short {key : String} (n : Int32) (hkey : newline ∉ str key)
    (hlen : (str key).length < 100) : (int key n).Short := by
  have hdecimal := decimal_length n
  refine ⟨hkey, ?_, ?_⟩
  · intro hmem
    exact absurd (decimal_range hmem).1 (by decide)
  · show 2 + (str key).length + (decimal n.toInt).length + 2 < 511
    omega

theorem bool_short {key : String} (n : Int32) (hkey : newline ∉ str key)
    (hlen : (str key).length < 100) : (bool key n).Short := by
  have hvalue : newline ∉ (bool key n).value ∧ (bool key n).value.length ≤ 5 := by
    show newline ∉ (if n = 0 then str "false" else str "true") ∧
      (if n = 0 then str "false" else str "true").length ≤ 5
    split
    · decide
    · decide
  refine ⟨hkey, hvalue.1, ?_⟩
  show 2 + (str key).length + (bool key n).value.length + 2 < 511
  omega

def strings (c : AppConfig) : List Bytes :=
  [c.logs.dir.bytes, c.logs.actions.bytes, c.io.pipe_path.bytes, c.ui.icon_directions.north.bytes,
    c.ui.icon_directions.west.bytes, c.ui.icon_directions.south.bytes,
    c.ui.icon_directions.east.bytes, c.ui.icon_directions.none.bytes,
    c.ui.messages.ink_tank_header.bytes, c.ui.messages.live_threads_label.bytes,
    c.ui.messages.no_args_message.bytes, c.ui.messages.quit_no_threads_message.bytes,
    c.ui.messages.quit_esc_message.bytes, c.ui.messages.quit_generic_message.bytes]

theorem items_short {c : AppConfig} (hc : ∀ s ∈ strings c, newline ∉ s) :
    ∀ i ∈ items c, i.Short := by
  simp only [strings, List.forall_mem_cons] at hc
  simp only [items, logsItems, simulationItems, inkItems, timingItems, eventLoopItems,
    producersItems, ioItems, iconItems, messagesItems, List.forall_mem_append, List.forall_mem_cons,
    List.not_mem_nil, false_imp_iff, implies_true]
  simp +decide only [header_short, text_short, int_short, bool_short, hc, not_false_eq_true,
    and_self]

theorem item_line (i : Item) : ItemLine i i.line := by
  have hspaces : ∀ n, Blank (List.replicate n 32) := by
    intro n c hc
    rw [List.eq_of_mem_replicate hc]
    decide
  have hgap : Blank [32] := hspaces 1
  by_cases hv : i.value = []
  · exact ⟨List.replicate i.depth 32, [], [], hspaces _, hspaces 0, hspaces 0,
      by simp [Item.line, hv]⟩
  · exact ⟨List.replicate i.depth 32, [32], [], hspaces _, hgap, hspaces 0, by simp [Item.line, hv]⟩

theorem line_short {i : Item} (hi : i.Short) : newline ∉ i.line ∧ i.line.length < 511 := by
  have hlen := hi.length
  constructor
  · rw [Item.line]
    have hkey := hi.key
    have hvalue := hi.value
    split <;> simp [newline] at hkey hvalue ⊢ <;> simp [hkey, hvalue]
  · rw [Item.line]
    split <;> simp <;> omega

theorem laid_lines (is : List Item) : Laid is (is.map Item.line) := by
  induction is with
  | nil => exact .nil
  | cons i is ih => exact .item (item_line i) ih

theorem lines_short {is : List Item} (his : ∀ i ∈ is, i.Short) :
    ∀ line ∈ is.map Item.line, newline ∉ line ∧ line.length < 511 := by
  intro line hline
  obtain ⟨i, hi, rfl⟩ := List.mem_map.mp hline
  exact line_short (his i hi)

theorem render_written {c : AppConfig} (hc : ∀ s ∈ strings c, newline ∉ s) : Written c (render c) :=
  ⟨(items c).map Item.line, laid_lines _, lines_short (items_short hc), rfl⟩

def quitMessage : AppConfig :=
  { AppConfig.zero with ui := { AppConfig.zero.ui with messages := { MessagesConfig.zero with
      quit_esc_message := ⟨str "game over...", by decide, by decide⟩ } } }

theorem messages_not_loaded : loadConfig (some (render quitMessage)) ≠ some quitMessage := by
  rw [load_written (.inl rfl) (render_written (by decide))]
  decide

def logsOnly : AppConfig :=
  { AppConfig.zero with
    logs := ⟨⟨str "logs", by decide, by decide⟩, ⟨str "a: b", by decide, by decide⟩⟩
    simulation := ⟨8, 8, -20, 20, 8, 2147483647, 1⟩ }

theorem config_round_trip_logsOnly : loadConfig (some (render logsOnly)) = some logsOnly :=
  (config_round_trip (.inr rfl) (render_written (by decide))).mpr rfl

end Csc412.Inklings
