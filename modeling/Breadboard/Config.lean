import Breadboard.Banner
import Breadboard.Engine.Settle
import Breadboard.Toml.Reader

/-!
# Configuration

The settings of a run, read from a file with the sections `engine`, `clock` and `run`. Every setting
has a default; a name that is no setting is refused, so that a slip of the pen does not pass for a
default. Settings of the right type are then checked for their ranges, in a fixed order.
-/

namespace Breadboard

/-- The settings. -/
structure Config where
  limits : Limits
  /-- A frequency for every oscillator, in place of its own. -/
  frequency : Option Frequency
  /-- The ticks of a batch run that is not told how many. -/
  ticks : Nat
  /-- Whether ticks are shown one interval apart. -/
  realtime : Bool

/-- The defaults. -/
def Config.standard : Config :=
  ⟨.standard, none, 1, false⟩

/-- Why a configuration is refused. -/
inductive ConfigError where
  /-- The text is no configuration. -/
  | malformed
  /-- No pass is allowed. -/
  | noPasses
  /-- Ticks are no time apart. -/
  | noInterval
  /-- The frequency is not valid. -/
  | badFrequency (frequency : Frequency)

namespace ConfigError

/-- The setting that is out of range. -/
def setting? : ConfigError → Option String
  | .malformed => none
  | .noPasses => some "engine.max_passes"
  | .noInterval => some "engine.tick_interval_ms"
  | .badFrequency _ => some "clock.frequency"

/-- What a setting has to be. -/
def demand : ConfigError → String
  | .malformed => ""
  | .noPasses => "must be at least 1"
  | .noInterval => "must be positive"
  | .badFrequency frequency => "must be positive, got " ++ frequency.text

/-- The report of an error. -/
def message (error : ConfigError) : String :=
  match error.setting? with
  | some setting => "`" ++ setting ++ "` " ++ error.demand
  | none => "invalid configuration:"

end ConfigError

namespace Toml

/-- An integer below a limit. -/
def natBelow? (limit : Nat) : Toml → Option Nat
  | .integer n => if 0 ≤ n ∧ n < limit then some n.toNat else none
  | _ => none

/-- A truth value. -/
def flag? : Toml → Option Bool
  | .flag value => some value
  | _ => none

/-- A frequency: a text with a unit, or a number of hertz. -/
def frequency? : Toml → Option Frequency
  | .string text => (Frequency.ofText text).toOption
  | .integer n => some ⟨Float.ofInt n⟩
  | .real x => some ⟨x⟩
  | _ => none

/-- Reads a setting that may be missing. -/
def setting? {α : Type} (default : α) (read : Toml → Option α) : Option Toml → Option α
  | some value => read value
  | none => some default

end Toml

namespace Config

/-- Reads the section `engine`. -/
def engine? (group : Toml) : Option Limits := do
  let [passes, depth, interval] ←
    group.fields? ["max_passes", "max_depth", "tick_interval_ms"] | none
  let passes ← Toml.setting? Limits.standard.maxPasses (Toml.natBelow? handleLimit) passes
  let depth ← Toml.setting? Limits.standard.maxDepth (Toml.natBelow? handleLimit) depth
  let interval ← Toml.setting? Limits.standard.interval (Toml.natBelow? wordLimit) interval
  return ⟨passes, depth, interval⟩

/-- Reads the section `clock`. -/
def clock? (group : Toml) : Option (Option Frequency) := do
  let [frequency] ← group.fields? ["frequency"] | none
  Toml.setting? none (fun value => value.frequency?.map some) frequency

/-- Reads the section `run`. -/
def run? (group : Toml) : Option (Nat × Bool) := do
  let [ticks, realtime] ← group.fields? ["ticks", "realtime"] | none
  let ticks ← Toml.setting? standard.ticks (Toml.natBelow? wordLimit) ticks
  let realtime ← Toml.setting? standard.realtime Toml.flag? realtime
  return (ticks, realtime)

/-- The settings of a file, whatever their ranges. -/
def ofToml? (file : Toml) : Option Config := do
  let [engine, clock, run] ← file.fields? ["engine", "clock", "run"] | none
  let limits ← Toml.setting? standard.limits engine? engine
  let frequency ← Toml.setting? standard.frequency clock? clock
  let (ticks, realtime) ← Toml.setting? (standard.ticks, standard.realtime) run? run
  return ⟨limits, frequency, ticks, realtime⟩

/-- Checks the ranges that the types of the settings leave open. -/
def check (config : Config) : Except ConfigError Config :=
  if config.limits.maxPasses = 0 then .error .noPasses
  else if config.limits.interval = 0 then .error .noInterval
  else
    match config.frequency with
    | some frequency => if frequency.isValid then .ok config else .error (.badFrequency frequency)
    | none => .ok config

/-- Reads the text of a configuration file. -/
def ofText (text : String) : Except ConfigError Config :=
  match (Toml.parse? text).bind ofToml? with
  | some config => config.check
  | none => .error .malformed

/-- A configuration file that spells out the defaults. -/
def template : String :=
  "# " ++ programName ++ " simulator configuration\n"
    ++ "\n"
    ++ "[engine]\n"
    ++ "# Propagation passes per evaluation of one circuit level.\n"
    ++ "max_passes = 10\n"
    ++ "# Composite nesting depth beyond which evaluation stops.\n"
    ++ "max_depth = 20\n"
    ++ "# Milliseconds between ticks; oscillator half periods are counted in ticks.\n"
    ++ "tick_interval_ms = 50\n"
    ++ "\n"
    ++ "[clock]\n"
    ++ "# Uncomment to run every oscillator at a fixed frequency.\n"
    ++ "# frequency = \"1Hz\"\n"
    ++ "\n"
    ++ "[run]\n"
    ++ "ticks = 1\n"
    ++ "realtime = false\n"

end Config

end Breadboard
