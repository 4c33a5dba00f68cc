import Mathlib.Data.Nat.Digits.Defs
import Csc412.Inklings.Config

/-!
# The layout of the configuration file

The lines of `config/inklings_config.yaml` for the values of an `AppConfig`: the sections
in their order and a line for each field. Indentation, the space around a value, blank
lines and comments are free.
-/

namespace Csc412.Inklings
open Lib.CString

/-- A header is a key without a value. -/
structure Item where
  depth : Nat
  key : Bytes
  value : Bytes

def header (depth : Nat) (key : String) : Item := ⟨depth, str key, []⟩
def text {size : Nat} (depth : Nat) (key : String) (b : Buffer size) : Item :=
  ⟨depth, str key, 34 :: b.bytes ++ [34]⟩
def quoted (depth : Nat) (key : String) (raw : Bytes) : Item := ⟨depth, str key, 34 :: raw ++ [34]⟩
def int (key : String) (n : Int32) : Item := ⟨2, str key, decimal n.toInt⟩
def bool (key : String) (n : Int32) : Item :=
  ⟨2, str key, if n = 0 then str "false" else str "true"⟩

def logsItems (c : LogsConfig) : List Item :=
  [header 0 "logs", text 2 "dir" c.dir, text 2 "actions" c.actions]

def simulationItems (c : SimulationConfig) : List Item :=
  [header 0 "simulation", int "default_rows" c.default_rows, int "default_cols" c.default_cols,
    int "min_rows" c.min_rows, int "min_cols" c.min_cols, int "min_threads" c.min_threads,
    int "default_threads" c.default_threads,
    bool "draw_colored_traveler_heads" c.draw_colored_traveler_heads]

def inkItems (c : InkConfig) : List Item :=
  [header 0 "ink", int "max_level" c.max_level, int "max_add_ink" c.max_add_ink,
    int "refill_ink" c.refill_ink, int "initial_red_level" c.initial_red_level,
    int "initial_green_level" c.initial_green_level, int "initial_blue_level" c.initial_blue_level]

def timingItems (c : TimingConfig) : List Item :=
  [header 0 "timing", int "min_producer_sleep_us" c.min_producer_sleep_us,
    int "producer_sleep_us" c.producer_sleep_us,
    int "inkling_sleep_us" c.inkling_sleep_us, int "inkling_sleep_step_us" c.inkling_sleep_step_us,
    int "inkling_sleep_min_us" c.inkling_sleep_min_us,
    int "inkling_sleep_max_us" c.inkling_sleep_max_us,
    int "arg_warning_sleep_s" c.arg_warning_sleep_s, int "shutdown_delay_s" c.shutdown_delay_s,
    int "event_loop_interval_ms" c.event_loop_interval_ms,
    int "event_loop_sleep_s" c.event_loop_sleep_s]

def eventLoopItems (c : EventLoopConfig) : List Item :=
  [header 0 "event_loop", int "max_recursive_depth" c.max_recursive_depth]

def producersItems (c : ProducersConfig) : List Item :=
  [header 0 "producers", int "speedup_factor_num" c.speedup_factor_num,
    int "speedup_factor_den" c.speedup_factor_den, int "slowdown_factor_num" c.slowdown_factor_num,
    int "slowdown_factor_den" c.slowdown_factor_den]

def ioItems (c : IOConfig) : List Item := [header 0 "io", text 2 "pipe_path" c.pipe_path]

def iconItems (c : IconDirectionsConfig) : List Item :=
  [header 2 "icon_directions", text 4 "north" c.north, text 4 "west" c.west, text 4 "south" c.south,
    text 4 "east" c.east, text 4 "none" c.none]

def messagesItems (c : MessagesConfig) : List Item :=
  [header 2 "messages", text 4 "ink_tank_header" c.ink_tank_header,
    text 4 "live_threads_label" c.live_threads_label, text 4 "no_args_message" c.no_args_message,
    text 4 "quit_no_threads_message" c.quit_no_threads_message,
    text 4 "quit_esc_message" c.quit_esc_message,
    text 4 "quit_generic_message" c.quit_generic_message]

def items (c : AppConfig) : List Item :=
  logsItems c.logs ++ simulationItems c.simulation ++ inkItems c.ink ++ timingItems c.timing ++
    eventLoopItems c.event_loop ++
    producersItems c.producers ++ ioItems c.io ++ header 0 "ui" :: iconItems c.ui.icon_directions ++
      messagesItems c.ui.messages

/-! ## Lines -/

def Blank (s : Bytes) : Prop := ∀ c ∈ s, isspace c ∧ c ≠ newline

def ItemLine (i : Item) (line : Bytes) : Prop :=
  ∃ indent gap trail, Blank indent ∧ Blank gap ∧ Blank trail ∧
    line = indent ++ (i.key ++ 58 :: (gap ++ (i.value ++ trail)))

def Inert (line : Bytes) : Prop :=
  ∃ indent rest, Blank indent ∧ (rest = [] ∨ rest.head? = some 35) ∧ line = indent ++ rest

inductive Laid : List Item → List Bytes → Prop
  | nil : Laid [] []
  | item {i : Item} {is : List Item} {line : Bytes} {lines : List Bytes} : ItemLine i line →
    Laid is lines → Laid (i :: is) (line :: lines)
  | inert {is : List Item} {line : Bytes} {lines : List Bytes} : Inert line → Laid is lines →
    Laid is (line :: lines)

def fileOf (lines : List Bytes) : Bytes := lines.flatMap (· ++ [newline])

/-- The file has the layout for the values of `c`. -/
def Written (c : AppConfig) (file : Bytes) : Prop :=
  ∃ lines, Laid (items c) lines ∧ (∀ line ∈ lines, newline ∉ line ∧ line.length < 511) ∧
    file = fileOf lines

/-! ## As it is shipped

No blank lines and no comments, and one space before a value. -/

def Item.line (i : Item) : Bytes :=
  List.replicate i.depth 32 ++ (i.key ++ 58 :: (if i.value = [] then [] else 32 :: i.value))

def render (c : AppConfig) : Bytes := fileOf ((items c).map Item.line)

end Csc412.Inklings
