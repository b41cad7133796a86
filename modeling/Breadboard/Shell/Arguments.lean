import Breadboard.Text.Digits

/-!
# Command lines

A command line names one of four commands with its arguments. Options stand anywhere before the mark
`--`: in long form with their value behind an equals sign or in the next argument, in short form
with their value right behind the letter, behind an equals sign or in the next argument, and several
short ones in one cluster. A value in an argument of its own does not begin with a hyphen, unless it
is the hyphen alone. An option that takes one value, or none, occurs once at each level; the options
of every command may stand before the command and behind it.
-/

namespace Breadboard

/-- What a batch run is told on the command line. -/
structure RunArguments where
  circuit : String
  ticks : Option Nat
  realtime : Bool
  drives : List String
  frequency : Option String
  /-- Where a waveform is written. -/
  waveform : Option String
  json : Bool
deriving DecidableEq

/-- A command with its arguments. -/
inductive Request where
  /-- Simulates a circuit. -/
  | run (arguments : RunArguments)
  /-- Prints the nets of a circuit. -/
  | nets (circuit : String) (json : Bool)
  /-- Steps a circuit interactively. -/
  | repl (circuit : String)
  /-- Writes a configuration file. -/
  | init (directory : Option String) (force : Bool)
  | version
deriving DecidableEq

/-- A command line. -/
structure Invocation where
  /-- Only errors are reported. -/
  quiet : Bool
  /-- More is reported. -/
  verbose : Bool
  /-- A configuration file, or the directory of one. -/
  config : Option String
  request : Request
deriving DecidableEq

namespace Arguments

/-- An option. -/
inductive Name where
  | quiet | verbose | config | version
  | ticks | realtime | set | frequency | vcd | json | force
deriving DecidableEq

namespace Name

/-- The option takes a value. -/
def takesValue : Name → Bool
  | .config | .ticks | .set | .frequency | .vcd => true
  | _ => false

/-- The long form, without its hyphens. -/
def long : Name → String
  | .quiet => "quiet"
  | .verbose => "verbose"
  | .config => "config"
  | .version => "version"
  | .ticks => "ticks"
  | .realtime => "realtime"
  | .set => "set"
  | .frequency => "frequency"
  | .vcd => "vcd"
  | .json => "json"
  | .force => "force"

/-- The letter of the short form. -/
def letter? : Name → Option Char
  | .quiet => some 'q'
  | .verbose => some 'v'
  | .version => some 'V'
  | .ticks => some 't'
  | .set => some 's'
  | .frequency => some 'f'
  | _ => none

end Name

/-- A place where options stand: before the command, or behind one. -/
inductive Level where
  | top | run | nets | repl | init
deriving DecidableEq

namespace Level

/-- The options of a level. -/
def options : Level → List Name
  | .top => [.quiet, .verbose, .config, .version]
  | .run => [.quiet, .verbose, .config, .ticks, .realtime, .set, .frequency, .vcd, .json]
  | .nets => [.quiet, .verbose, .config, .json]
  | .repl => [.quiet, .verbose, .config]
  | .init => [.quiet, .verbose, .config, .force]

/-- The level of a command. -/
def ofCommand? (command : String) : Option Level :=
  if command = "run" then some .run
  else if command = "nets" then some .nets
  else if command = "repl" then some .repl
  else if command = "init" then some .init
  else none

end Level

/-- A piece of a command line that was told apart. -/
inductive Piece where
  | option (name : Name) (value : String)
  | positional (text : String)
deriving DecidableEq

/-- The pieces of a level: those of the command line up to the command, or the request for the
    version, or those behind the command. -/
structure Pieces where
  pieces : List Piece
  /-- The version was asked for. -/
  version : Bool
  /-- What follows the pieces. -/
  rest : List String

/-- What the letters of a cluster were found to be. -/
inductive Cluster where
  /-- All letters are options without a value. -/
  | flags (names : List Name)
  /-- The last letter is an option whose value follows in the cluster. -/
  | valued (names : List Name) (last : Name) (value : String)
  /-- The last letter is an option whose value has to be the next argument. -/
  | awaiting (names : List Name) (last : Name)

/-- The cluster with an option in front. -/
def Cluster.cons (name : Name) : Cluster → Cluster
  | .flags names => .flags (name :: names)
  | .valued names last value => .valued (name :: names) last value
  | .awaiting names last => .awaiting (name :: names) last

/-- The letters of a cluster, without the hyphen. Behind a request for the version nothing counts.
    -/
def cluster? (level : Level) : List Char → Option Cluster
  | [] => some (.flags [])
  | c :: rest =>
    match level.options.find? fun name => name.letter? == some c with
    | none => none
    | some name =>
      if name.takesValue then
        match rest with
        | [] => some (.awaiting [] name)
        | '=' :: value => some (.valued [] name (String.ofList value))
        | value => some (.valued [] name (String.ofList value))
      else if name = .version then some (.flags [name])
      else (cluster? level rest).map (Cluster.cons name)

/-- The option of a long form and its value behind an equals sign, if there is one. -/
def long? (level : Level) (text : List Char) : Option (Name × Option String) :=
  let (word, behind) := text.span (· != '=')
  let value := match behind with
    | _ :: value => some (String.ofList value)
    | [] => none
  (level.options.find? fun name => name.long == String.ofList word).map fun name => (name, value)

/-- The argument is a value in an argument of its own. -/
def isValue (argument : String) : Bool :=
  match argument.toList with
  | '-' :: _ :: _ => false
  | _ => true

/-- Puts flags in front of pieces. A request for the version ends the level. -/
def withFlags (names : List Name) (pieces : Option Pieces) : Option Pieces :=
  names.foldr (fun name pieces =>
    if name = .version then some ⟨[], true, []⟩
    else pieces.map fun later => { later with pieces := .option name "" :: later.pieces }) pieces

/-- Puts a piece in front of pieces. -/
def withPiece (piece : Piece) (pieces : Option Pieces) : Option Pieces :=
  pieces.map fun later => { later with pieces := piece :: later.pieces }

/-- The pieces of a level. There is no answer if some argument has no meaning at the level. Before
    the command, an argument that is no option is the command. -/
def pieces? (level : Level) : List String → Option Pieces
  | [] => some ⟨[], false, []⟩
  | argument :: rest =>
    match argument.toList with
    | ['-', '-'] =>
      if level = .top then (if rest.isEmpty then some ⟨[], false, []⟩ else none)
      else some ⟨rest.map .positional, false, []⟩
    | '-' :: '-' :: text =>
      match long? level text with
      | none => none
      | some (name, value) =>
        if name.takesValue then
          match value, rest with
          | some value, rest => withPiece (.option name value) (pieces? level rest)
          | none, value :: rest =>
            if isValue value then withPiece (.option name value) (pieces? level rest) else none
          | none, [] => none
        else if value.isSome then none
        else withFlags [name] (pieces? level rest)
    | '-' :: c :: letters =>
      match cluster? level (c :: letters), rest with
      | none, _ => none
      | some (.flags names), rest => withFlags names (pieces? level rest)
      | some (.valued names name value), rest =>
        withFlags names (withPiece (.option name value) (pieces? level rest))
      | some (.awaiting names name), value :: rest =>
        withFlags names
          (if isValue value then withPiece (.option name value) (pieces? level rest) else none)
      | some (.awaiting names _), [] => withFlags names none
    | _ =>
      if level = .top then some ⟨[], false, argument :: rest⟩
      else withPiece (.positional argument) (pieces? level rest)

/-- The values of an option, in order. -/
def values (name : Name) (pieces : List Piece) : List String :=
  pieces.filterMap fun
    | .option found value => if found = name then some value else none
    | .positional _ => none

/-- The arguments that belong to no option. -/
def positionals (pieces : List Piece) : List String :=
  pieces.filterMap fun
    | .positional text => some text
    | .option .. => none

/-- The option occurs. -/
def isSet (name : Name) (pieces : List Piece) : Bool :=
  !(values name pieces).isEmpty

/-- No option occurs too often. -/
def occurOnce (level : Level) (pieces : List Piece) : Bool :=
  level.options.all fun name => name == .set || (values name pieces).length ≤ 1

/-- No option occurs too often, and the two options on how much is reported do not meet. -/
def areCompatible (level : Level) (pieces : List Piece) : Bool :=
  occurOnce level pieces && !(isSet .quiet pieces && isSet .verbose pieces)

/-- The value of an option that occurs once. -/
def value? (name : Name) (pieces : List Piece) : Option String :=
  (values name pieces).head?

/-- The number of ticks, where one is given. -/
def ticks? (pieces : List Piece) : Option (Option Nat) :=
  match value? .ticks pieces with
  | some text => (word? text).map some
  | none => some none

/-- The request of a command's pieces. -/
def request? (level : Level) (pieces : List Piece) : Option Request :=
  match level, positionals pieces with
  | .run, [circuit] =>
    (ticks? pieces).map fun ticks =>
      .run
        { circuit
          ticks
          realtime := isSet .realtime pieces
          drives := values .set pieces
          frequency := value? .frequency pieces
          waveform := value? .vcd pieces
          json := isSet .json pieces }
  | .nets, [circuit] => some (.nets circuit (isSet .json pieces))
  | .repl, [circuit] => some (.repl circuit)
  | .init, [] => some (.init none (isSet .force pieces))
  | .init, [directory] => some (.init (some directory) (isSet .force pieces))
  | _, _ => none

/-- The pieces of a level, if they are compatible. -/
def level? (level : Level) (arguments : List String) : Option Pieces :=
  (pieces? level arguments).filter fun found => areCompatible level found.pieces

/-- Reads a command line. A request for the version is answered before what follows it is looked at.
    -/
def parse? (arguments : List String) : Option Invocation := do
  let top ← pieces? .top arguments
  if !occurOnce .top top.pieces then none
  if top.version then return ⟨false, false, none, .version⟩
  let command :: rest := top.rest | none
  let level ← Level.ofCommand? command
  let inner ← level? level rest
  if !areCompatible .top top.pieces then none
  let either (name : Name) : Bool := isSet name top.pieces || isSet name inner.pieces
  let request ← request? level inner.pieces
  return ⟨either .quiet, either .verbose,
    value? .config inner.pieces <|> value? .config top.pieces, request⟩

end Arguments

end Breadboard
