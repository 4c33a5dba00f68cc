import Csc412.Lib.CString

/-!
# The configuration of the inklings

`load_config` of `cink/src/config.c`. The file is what is found at the path of the
configuration; a line is a buffer of 512 bytes, so a longer one is read as several.
-/

namespace Csc412.Inklings
open Lib.CString

structure LogsConfig where
  dir : Buffer 256
  actions : Buffer 256
deriving DecidableEq

structure SimulationConfig where
  default_rows : Int32
  default_cols : Int32
  min_rows : Int32
  min_cols : Int32
  min_threads : Int32
  default_threads : Int32
  draw_colored_traveler_heads : Int32
deriving DecidableEq

structure InkConfig where
  max_level : Int32
  max_add_ink : Int32
  refill_ink : Int32
  initial_red_level : Int32
  initial_green_level : Int32
  initial_blue_level : Int32
deriving DecidableEq

structure TimingConfig where
  min_producer_sleep_us : Int32
  producer_sleep_us : Int32
  inkling_sleep_us : Int32
  inkling_sleep_step_us : Int32
  inkling_sleep_min_us : Int32
  inkling_sleep_max_us : Int32
  arg_warning_sleep_s : Int32
  shutdown_delay_s : Int32
  event_loop_interval_ms : Int32
  event_loop_sleep_s : Int32
deriving DecidableEq

structure EventLoopConfig where
  max_recursive_depth : Int32
deriving DecidableEq

structure ProducersConfig where
  speedup_factor_num : Int32
  speedup_factor_den : Int32
  slowdown_factor_num : Int32
  slowdown_factor_den : Int32
deriving DecidableEq

structure IOConfig where
  pipe_path : Buffer 256
deriving DecidableEq

structure IconDirectionsConfig where
  north : Buffer 8
  west : Buffer 8
  south : Buffer 8
  east : Buffer 8
  none : Buffer 8
deriving DecidableEq

structure MessagesConfig where
  ink_tank_header : Buffer 128
  live_threads_label : Buffer 64
  no_args_message : Buffer 256
  quit_no_threads_message : Buffer 256
  quit_esc_message : Buffer 256
  quit_generic_message : Buffer 256
deriving DecidableEq

structure UIConfig where
  icon_directions : IconDirectionsConfig
  messages : MessagesConfig
deriving DecidableEq

structure AppConfig where
  logs : LogsConfig
  simulation : SimulationConfig
  ink : InkConfig
  timing : TimingConfig
  event_loop : EventLoopConfig
  producers : ProducersConfig
  io : IOConfig
  ui : UIConfig
deriving DecidableEq

/-! ## Zero bytes -/

def MessagesConfig.zero : MessagesConfig := ⟨.empty, .empty, .empty, .empty, .empty, .empty⟩

/-- `memset(cfg, 0, sizeof(*cfg))`. -/
def AppConfig.zero : AppConfig where
  logs := ⟨.empty, .empty⟩
  simulation := ⟨0, 0, 0, 0, 0, 0, 0⟩
  ink := ⟨0, 0, 0, 0, 0, 0⟩
  timing := ⟨0, 0, 0, 0, 0, 0, 0, 0, 0, 0⟩
  event_loop := ⟨0⟩
  producers := ⟨0, 0, 0, 0⟩
  io := ⟨.empty⟩
  ui := ⟨⟨.empty, .empty, .empty, .empty, .empty⟩, .zero⟩

/-! ## Values -/

def trim (s : Bytes) : Bytes := (s.dropWhile isspace).rdropWhile isspace

def parseBoolOrInt (v : Bytes) : Int32 :=
  if strcaseeq v (str "true") then 1
  else if strcaseeq v (str "false") then 0
  else atoi v

def stripQuotes (v : Bytes) : Bytes :=
  if 2 ≤ v.length ∧ v.head? = some 34 ∧ v.getLast? = some 34 then v.tail.dropLast else v

/-! ## Sections -/

inductive Section where
  | none
  | logs
  | simulation
  | ink
  | timing
  | eventLoop
  | producers
  | io
  | ui
  | uiIcon
  | uiMessages
deriving DecidableEq

/-- The section that a line opens in any section. -/
def topLevel (p : Bytes) : Option Section :=
  if str "logs:" <+: p then some .logs
  else if str "simulation:" <+: p then some .simulation
  else if str "ink:" <+: p then some .ink
  else if str "timing:" <+: p then some .timing
  else if str "event_loop:" <+: p then some .eventLoop
  else if str "producers:" <+: p then some .producers
  else if str "io:" <+: p then some .io
  else if str "ui:" <+: p then some .ui
  else none

/-- The section that a line opens in the section `ui`. -/
def nested (current : Section) (p : Bytes) : Option Section :=
  if current = .ui ∧ str "icon_directions:" <+: p then some .uiIcon
  else if current = .ui ∧ str "messages:" <+: p then some .uiMessages
  else none

/-! ## Keys -/

def logsKey (c : LogsConfig) (key value : Bytes) : LogsConfig :=
  if key = str "dir" then { c with dir := snprintf value }
  else if key = str "actions" then { c with actions := snprintf value }
  else c

def simulationKey (c : SimulationConfig) (key value : Bytes) : SimulationConfig :=
  if key = str "default_rows" then { c with default_rows := atoi value }
  else if key = str "default_cols" then { c with default_cols := atoi value }
  else if key = str "min_rows" then { c with min_rows := atoi value }
  else if key = str "min_cols" then { c with min_cols := atoi value }
  else if key = str "min_threads" then { c with min_threads := atoi value }
  else if key = str "default_threads" then { c with default_threads := atoi value }
  else if key = str "draw_colored_traveler_heads"
    then { c with draw_colored_traveler_heads := parseBoolOrInt value }
  else c

def inkKey (c : InkConfig) (key value : Bytes) : InkConfig :=
  if key = str "max_level" then { c with max_level := atoi value }
  else if key = str "max_add_ink" then { c with max_add_ink := atoi value }
  else if key = str "refill_ink" then { c with refill_ink := atoi value }
  else if key = str "initial_red_level" then { c with initial_red_level := atoi value }
  else if key = str "initial_green_level" then { c with initial_green_level := atoi value }
  else if key = str "initial_blue_level" then { c with initial_blue_level := atoi value }
  else c

def timingKey (c : TimingConfig) (key value : Bytes) : TimingConfig :=
  if key = str "min_producer_sleep_us" then { c with min_producer_sleep_us := atoi value }
  else if key = str "producer_sleep_us" then { c with producer_sleep_us := atoi value }
  else if key = str "inkling_sleep_us" then { c with inkling_sleep_us := atoi value }
  else if key = str "inkling_sleep_step_us" then { c with inkling_sleep_step_us := atoi value }
  else if key = str "inkling_sleep_min_us" then { c with inkling_sleep_min_us := atoi value }
  else if key = str "inkling_sleep_max_us" then { c with inkling_sleep_max_us := atoi value }
  else if key = str "arg_warning_sleep_s" then { c with arg_warning_sleep_s := atoi value }
  else if key = str "shutdown_delay_s" then { c with shutdown_delay_s := atoi value }
  else if key = str "event_loop_interval_ms" then { c with event_loop_interval_ms := atoi value }
  else if key = str "event_loop_sleep_s" then { c with event_loop_sleep_s := atoi value }
  else c

def eventLoopKey (c : EventLoopConfig) (key value : Bytes) : EventLoopConfig :=
  if key = str "max_recursive_depth" then { c with max_recursive_depth := atoi value } else c

def producersKey (c : ProducersConfig) (key value : Bytes) : ProducersConfig :=
  if key = str "speedup_factor_num" then { c with speedup_factor_num := atoi value }
  else if key = str "speedup_factor_den" then { c with speedup_factor_den := atoi value }
  else if key = str "slowdown_factor_num" then { c with slowdown_factor_num := atoi value }
  else if key = str "slowdown_factor_den" then { c with slowdown_factor_den := atoi value }
  else c

def ioKey (c : IOConfig) (key value : Bytes) : IOConfig :=
  if key = str "pipe_path" then { c with pipe_path := snprintf value } else c

def iconKey (c : IconDirectionsConfig) (key value : Bytes) : IconDirectionsConfig :=
  if key = str "north" then { c with north := snprintf value }
  else if key = str "west" then { c with west := snprintf value }
  else if key = str "south" then { c with south := snprintf value }
  else if key = str "east" then { c with east := snprintf value }
  else if key = str "none" then { c with none := snprintf value }
  else c

def messagesKey (c : MessagesConfig) (key value : Bytes) : MessagesConfig :=
  if key = str "ink_tank_header" then { c with ink_tank_header := snprintf value }
  else if key = str "live_threads_label" then { c with live_threads_label := snprintf value }
  else if key = str "no_args_message" then { c with no_args_message := snprintf value }
  else if key = str "quit_no_threads_message"
    then { c with quit_no_threads_message := snprintf value }
  else if key = str "quit_esc_message" then { c with quit_esc_message := snprintf value }
  else if key = str "quit_generic_message" then { c with quit_generic_message := snprintf value }
  else c

/-- The `switch` over the section. -/
def dispatch (c : AppConfig) (current : Section) (key value : Bytes) : AppConfig :=
  match current with
  | .logs => { c with logs := logsKey c.logs key value }
  | .simulation => { c with simulation := simulationKey c.simulation key value }
  | .ink => { c with ink := inkKey c.ink key value }
  | .timing => { c with timing := timingKey c.timing key value }
  | .eventLoop => { c with event_loop := eventLoopKey c.event_loop key value }
  | .producers => { c with producers := producersKey c.producers key value }
  | .io => { c with io := ioKey c.io key value }
  | .uiIcon => { c with ui := { c.ui with
      icon_directions := iconKey c.ui.icon_directions key value } }
  | .uiMessages => { c with ui := { c.ui with messages := messagesKey c.ui.messages key value } }
  | .none => c
  | .ui => c

/-! ## Lines -/

structure Loader where
  current : Section
  cfg : AppConfig

/-- A round of the loop on the buffer `line`. -/
def processLine (st : Loader) (line : Bytes) : Loader :=
  let p := trim (cstr line)
  if p = [] ∨ p.head? = some 35 then st
  else
    match topLevel p with
    | some opened => { st with current := opened }
    | none =>
      match nested st.current p with
      | some opened => { st with current := opened }
      | none =>
        if 58 ∈ p then
          let key := trim (p.takeWhile (· ≠ 58))
          let value := trim (p.dropWhile (· ≠ 58)).tail
          { st with cfg := dispatch st.cfg st.current key (stripQuotes value) }
        else st

def loadLoop (st : Loader) (file : Bytes) : Loader :=
  if _h : file = [] then st
  else loadLoop (processLine st (fgets 511 file).1) (fgets 511 file).2
termination_by file.length
decreasing_by exact fgets_lt 510 _h

/-- `none` is a file that cannot be opened, for which -1 is returned. -/
def loadConfig (file : Option Bytes) : Option AppConfig := do
  let file ← file
  some (loadLoop ⟨.none, .zero⟩ file).cfg

end Csc412.Inklings
