import Csc412.Inklings.Config

/-!
# The configuration of the inklings in Go

`Load` of `goink/internal/config/config.go`. The library that reads YAML is a parameter: it
gives what a file has at a path of keys, in the type of the field whose tags they are.
-/

namespace Csc412.Inklings.Go
open Lib.CString

structure LogsConfig where
  directory : Bytes
  actions : Bytes

structure SimulationConfig where
  defaultRows : Int64
  defaultCols : Int64
  minRows : Int64
  minCols : Int64
  minThreads : Int64
  defaultThreads : Int64
  drawColoredTravelerHeads : Bool

structure InkConfig where
  maxLevel : Int64
  maxAddInk : Int64
  refillInk : Int64
  initialRed : Int64
  initialGreen : Int64
  initialBlue : Int64

structure TimingConfig where
  minProducerSleepUS : Int64
  producerSleepUS : Int64
  inklingSleepUS : Int64
  inklingSleepStepUS : Int64
  inklingSleepMinUS : Int64
  inklingSleepMaxUS : Int64
  argWarningSleepS : Int64
  shutdownDelayS : Int64
  eventLoopIntervalMS : Int64
  eventLoopSleepS : Int64

structure EventLoopConfig where
  maxRecursiveDepth : Int64

structure ProducersConfig where
  speedupFactorNum : Int64
  speedupFactorDen : Int64
  slowdownFactorNum : Int64
  slowdownFactorDen : Int64

structure IOConfig where
  pipePath : Bytes

structure IconDirectionsConfig where
  north : Bytes
  west : Bytes
  south : Bytes
  east : Bytes
  none : Bytes

structure MessagesConfig where
  inkTankHeader : Bytes
  liveThreadsLabel : Bytes
  noArgsMessage : Bytes
  quitNoThreadsMessage : Bytes
  quitEscMessage : Bytes
  quitGenericMessage : Bytes

structure UIConfig where
  iconDirections : IconDirectionsConfig
  messages : MessagesConfig

structure Config where
  logs : LogsConfig
  simulation : SimulationConfig
  ink : InkConfig
  timing : TimingConfig
  eventLoop : EventLoopConfig
  producers : ProducersConfig
  io : IOConfig
  ui : UIConfig

/-- What a file has at a path, and the zero value of the type where it has nothing. -/
structure Document where
  text : List String → Bytes
  int : List String → Int64
  bool : List String → Bool

namespace Document
variable (doc : Document)

def logs : LogsConfig := ⟨doc.text ["logs", "dir"], doc.text ["logs", "actions"]⟩

def simulation : SimulationConfig :=
  ⟨doc.int ["simulation", "default_rows"], doc.int ["simulation", "default_cols"],
    doc.int ["simulation", "min_rows"],
    doc.int ["simulation", "min_cols"], doc.int ["simulation", "min_threads"],
    doc.int ["simulation", "default_threads"],
    doc.bool ["simulation", "draw_colored_traveler_heads"]⟩

def ink : InkConfig :=
  ⟨doc.int ["ink", "max_level"], doc.int ["ink", "max_add_ink"], doc.int ["ink", "refill_ink"],
    doc.int ["ink", "initial_red_level"],
    doc.int ["ink", "initial_green_level"], doc.int ["ink", "initial_blue_level"]⟩

def timing : TimingConfig :=
  ⟨doc.int ["timing", "min_producer_sleep_us"], doc.int ["timing", "producer_sleep_us"],
    doc.int ["timing", "inkling_sleep_us"],
    doc.int ["timing", "inkling_sleep_step_us"], doc.int ["timing", "inkling_sleep_min_us"],
    doc.int ["timing", "inkling_sleep_max_us"],
    doc.int ["timing", "arg_warning_sleep_s"], doc.int ["timing", "shutdown_delay_s"],
    doc.int ["timing", "event_loop_interval_ms"],
    doc.int ["timing", "event_loop_sleep_s"]⟩

def eventLoop : EventLoopConfig := ⟨doc.int ["event_loop", "max_recursive_depth"]⟩

def producers : ProducersConfig :=
  ⟨doc.int ["producers", "speedup_factor_num"], doc.int ["producers", "speedup_factor_den"],
    doc.int ["producers", "slowdown_factor_num"], doc.int ["producers", "slowdown_factor_den"]⟩

def io : IOConfig := ⟨doc.text ["io", "pipe_path"]⟩

def iconDirections : IconDirectionsConfig :=
  ⟨doc.text ["ui", "icon_directions", "north"], doc.text ["ui", "icon_directions", "west"],
    doc.text ["ui", "icon_directions", "south"],
    doc.text ["ui", "icon_directions", "east"], doc.text ["ui", "icon_directions", "none"]⟩

def messages : MessagesConfig :=
  ⟨doc.text ["ui", "messages", "ink_tank_header"],
    doc.text ["ui", "messages", "live_threads_label"],
    doc.text ["ui", "messages", "no_args_message"],
    doc.text ["ui", "messages", "quit_no_threads_message"],
    doc.text ["ui", "messages", "quit_esc_message"],
    doc.text ["ui", "messages", "quit_generic_message"]⟩

def config : Config :=
  ⟨doc.logs, doc.simulation, doc.ink, doc.timing, doc.eventLoop, doc.producers, doc.io,
    ⟨doc.iconDirections, doc.messages⟩⟩

end Document

/-- `none` is a file that cannot be read, or an error of `yaml.Unmarshal`. -/
def load (unmarshal : Bytes → Option Document) (file : Option Bytes) : Option Config := do
  let data ← file
  let doc ← unmarshal data
  some doc.config

end Csc412.Inklings.Go
