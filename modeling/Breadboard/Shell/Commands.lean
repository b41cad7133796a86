import Breadboard.Config
import Breadboard.Form.Reports
import Breadboard.Net.Report
import Breadboard.Shell.Arguments
import Breadboard.Shell.Path
import Breadboard.Shell.Program

/-!
# The commands

The four commands as programs that end with an exit code. Each loads the configuration first and the
circuit then; the results go to the output, and progress and errors are reported. An error ends a
command with code one, a command line without meaning with code two.
-/

namespace Breadboard

/-- What ends a command. -/
inductive Failure where
  /-- A circuit or a waveform could not be read or written. -/
  | circuitFile (error : FileError)
  | malformedCircuit
  | configFile (path : String) (error : FileError)
  | config (error : ConfigError)
  | frequency (error : Frequency.ParseError)
  | drive (error : DriveError)
  /-- A configuration file is there already. -/
  | configExists (path : String)
  /-- A configuration file could not be written. -/
  | newConfig (error : FileError)

/-- The report of an error. -/
def Failure.message : Failure → String
  | .circuitFile error => "I/O error: " ++ error.message
  | .malformedCircuit => "invalid circuit file: the text is no circuit"
  | .configFile path error => "cannot read " ++ path ++ ": " ++ error.message
  | .config .malformed => ConfigError.malformed.message ++ " the text is no configuration"
  | .config error => error.message
  | .frequency error => error.message
  | .drive error => error.message
  | .configExists path => "'" ++ path ++ "' already exists (use --force to overwrite)"
  | .newConfig error => error.message

/-- How a command ends: with an exit code, or by a fault that nothing catches. -/
inductive Ending where
  | code (number : Nat)
  | fault (fault : Fault)
deriving DecidableEq

namespace Ending

/-- The exit code. -/
def number : Ending → Nat
  | .code number => number
  | .fault _ => 101

end Ending

namespace Commands

/-- A program that a failure may end. -/
abbrev Step := ExceptT Failure Program

/-- Asks the surroundings. -/
def ask {α : Type} (program : Program α) : Step α :=
  ExceptT.lift program

/-- Goes on with the result of an attempt. -/
def orFail {α ε : Type} (fail : ε → Failure) (attempt : Except ε α) : Step α :=
  ExceptT.mk (.done (attempt.mapError fail))

/-- Writes a line to the output. -/
def printLine (text : String) : Step Unit :=
  ask (.print (text ++ "\n") (.done ()))

/-- Reports a line of progress, unless only errors are reported. -/
def progress (invocation : Invocation) (text : String) : Step Unit :=
  if invocation.quiet then pure () else ask (.report (text ++ "\n") (.done ()))

/-- Loads a configuration file. -/
def configAt (path : String) : Step Config := do
  let text ← orFail (.configFile path) (← ask (.readFile path .done))
  orFail .config (Config.ofText text)

/-- Loads the configuration file of a directory; without one the defaults hold. -/
def configIn (directory : String) : Step Config := do
  let path := Path.within directory configName
  match ← ask (.look path .done) with
  | .nothing => return Config.standard
  | _ => configAt path

/-- Loads the configuration that the command line names, or that of the present directory. -/
def loadConfig (invocation : Invocation) : Step Config := do
  match invocation.config with
  | none => configIn (← ask (.whereabouts .done))
  | some path =>
    match ← ask (.look path .done) with
    | .directory => configIn path
    | _ => configAt path

/-- Loads a circuit file and sets the configured frequency. -/
def loadCircuit (path : String) (config : Config) : Step Circuit := do
  let text ← orFail .circuitFile (← ask (.readFile path .done))
  match Circuit.ofText? text 1 with
  | none => throw .malformedCircuit
  | some (circuit, _) =>
    match config.frequency with
    | some frequency => return circuit.retune frequency
    | none => return circuit

/-- The frequency of the command line. -/
def frequencyOf : Option String → Step (Option Frequency)
  | some text => do return some (← orFail .frequency (Frequency.ofText text))
  | none => return none

/-- The line of a reading; a node without a label is told by its handle. -/
def readingLine (reading : Reading) : String :=
  (if reading.label = "" then "#" ++ decimalText reading.node else reading.label)
    ++ " = " ++ reading.signal.text

/-- Prints the readings and reports the summary of a run. -/
def showRun (invocation : Invocation) (arguments : RunArguments) (readings : List Reading)
    (summary : RunSummary) : Step Ending := do
  if arguments.json then printLine (summary.report readings).spread
  else
    for reading in readings do
      printLine (readingLine reading)
  progress invocation ("    Finished " ++ decimalText summary.ticks ++ " tick(s), "
    ++ decimalText summary.changed ++ " with changes")
  match arguments.waveform with
  | some path => progress invocation ("   Waveform: " ++ path)
  | none => pure ()
  if summary.faulted = 0 then return .code 0
  else
    ask (.report ("error: " ++ decimalText summary.faulted
      ++ " tick(s) abandoned after an internal error\n") (.done ()))
    return .code 1

/-- Reports what is about to be simulated. -/
def announce (invocation : Invocation) (circuit : String) (ticks : Nat) (limits : Limits) :
    Step Unit := do
  progress invocation ("   Simulating " ++ circuit ++ " for " ++ decimalText ticks ++ " tick(s)")
  if invocation.verbose then
    progress invocation ("      Limits " ++ decimalText limits.maxPasses ++ " passes, depth "
      ++ decimalText limits.maxDepth ++ ", " ++ decimalText limits.interval ++ " ms per tick")

/-- The milliseconds that a run takes to be shown: one interval between every two ticks. -/
def pause (options : RunOptions) (limits : Limits) : Nat :=
  if options.realtime then (options.ticks - 1) * limits.interval else 0

/-- The command `run`. -/
def run (invocation : Invocation) (arguments : RunArguments) : Step Ending := do
  let config ← loadConfig invocation
  let circuit ← loadCircuit arguments.circuit config
  let frequency ← frequencyOf arguments.frequency
  let options : RunOptions :=
    { ticks := arguments.ticks.getD config.ticks
      drives := arguments.drives
      frequency
      realtime := arguments.realtime || config.realtime
      record := arguments.waveform.isSome }
  announce invocation arguments.circuit options.ticks config.limits
  let record := simulate circuit config.limits options
  match arguments.waveform, record.dump with
  | some path, some dump => orFail .circuitFile (← ask (.writeFile path dump .done))
  | _, _ => pure ()
  match record.result with
  | .error (.drive error) => throw (.drive error)
  | .error (.fault fault) => return .fault fault
  | .ok summary =>
    ask (.wait (pause options config.limits) (.done ()))
    showRun invocation arguments record.circuit.readings summary

/-- The command `nets`. -/
def nets (invocation : Invocation) (path : String) (json : Bool) : Step Ending := do
  let config ← loadConfig invocation
  let circuit ← loadCircuit path config
  let netlist := Netlist.build circuit
  printLine (if json then netlist.toJson.spread else netlist.report circuit)
  progress invocation ("   " ++ decimalText circuit.nodeCount ++ " node(s), "
    ++ decimalText circuit.wires.length ++ " wire(s), "
    ++ decimalText netlist.nets.length ++ " net(s)")
  return .code 0

/-- The command `repl`. -/
def repl (invocation : Invocation) (path : String) : Step Ending := do
  let config ← loadConfig invocation
  let circuit ← loadCircuit path config
  progress invocation ("   Loaded " ++ path)
  ask (.converse (.new circuit config.limits) (.done ()))
  return .code 0

/-- Makes a directory, unless it is there. -/
def provide (path : String) : Program (Except FileError Unit) := do
  match ← Program.look path .done with
  | .directory => return .ok ()
  | _ => .makeDirectory path .done

/-- Provides the first of several directories. If it has no place to be in, the others are provided
    first. -/
def provideFirst : List String → Program (Except FileError Unit)
  | [] => return .ok ()
  | path :: others => do
    match ← provide path with
    | .ok () => return .ok ()
    | .error error =>
      if error ≠ .notFound then return .error error
      match ← provideFirst others with
      | .ok () => provide path
      | .error error => return .error error

/-- Provides a directory and those on the way to it. The empty path is the present directory. -/
def provideAround (path : String) : Program (Except FileError Unit) :=
  if path = "" then .done (.ok ()) else provideFirst (path :: Path.onTheWay path)

/-- The command `init`. -/
def init (invocation : Invocation) (directory : Option String) (force : Bool) : Step Ending := do
  let directory ← match directory with
    | some directory => pure directory
    | none => ask (.whereabouts .done)
  orFail .newConfig (← ask (provideAround directory))
  let path := Path.within directory configName
  if !force && (← ask (.look path .done)) != .nothing then throw (.configExists path)
  orFail .newConfig (← ask (.writeFile path Config.template .done))
  progress invocation ("     Created " ++ path)
  return .code 0

/-- Carries out a request. -/
def carryOut (invocation : Invocation) : Step Ending :=
  match invocation.request with
  | .run arguments => run invocation arguments
  | .nets circuit json => nets invocation circuit json
  | .repl circuit => repl invocation circuit
  | .init directory force => init invocation directory force
  | .version => do
    printLine (programName ++ " " ++ programVersion)
    return .code 0

/-- What is reported of a command line without meaning. -/
def usage : String :=
  "error: the command line has no meaning\n\nUsage: " ++ programName
    ++ " [-q | -v] [--config PATH] <run | nets | repl | init> [ARGUMENTS]\n"

/-- The program of a command line. -/
def program (arguments : List String) : Program Ending :=
  match Arguments.parse? arguments with
  | none => .report usage (.done (.code 2))
  | some invocation => do
    match ← (carryOut invocation).run with
    | .ok ending => return ending
    | .error failure => .report ("error: " ++ failure.message ++ "\n") (.done (.code 1))

end Commands

end Breadboard
